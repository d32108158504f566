import HttpServer.ConnectionRuns
import HttpServer.ReadingBounds
import HttpServer.SerializedSize

/-!
# Bounds of a connection

Every buffer stays within its capacity, every cursor inside its buffer and the
scratch arena between its mark and its end, whatever the peer, the clock and the
handlers do. No assertion of the server fails on the way.
-/

namespace HttpServer

variable {σ : Type*} {router : Router σ} {m m' : Machine σ} {conn : Connection}
  {arena arena' : Arena} {b : HttpBuffer} {log log' : List Event}

/-! ## The scratch arena -/

/-- `arena_alloc` has been called any number of times, with a power of two for the alignment. -/
inductive Arena.Allocates : Arena → Arena → Prop where
  | refl (arena : Arena) : Allocates arena arena
  | alloc {arena arena' : Arena} (h : Allocates arena arena') (n : ℕ) {k : ℕ} (hk : k < 64) :
      Allocates arena (arenaAlloc arena' n (2 ^ k)).2

/-- Every handler uses the scratch arena through `arena_alloc` only. -/
def Router.AllocatesScratch (router : Router σ) : Prop :=
  ∀ route ∈ router.routes, ∀ req (scratch : Arena) handlers,
    scratch.Allocates (route.handler req route.data scratch handlers).2.1

/-- The mask of a power of two clears the low bits. -/
theorem and_mask_eq {n k : ℕ} (hk : k < 64) (hn : n < 2 ^ 64) :
    n &&& (SIZE_MAX ^^^ (2 ^ k - 1)) = n / 2 ^ k * 2 ^ k := by
  unfold SIZE_MAX
  apply Nat.eq_of_testBit_eq
  intro i
  rw [Nat.testBit_and, Nat.testBit_xor, Nat.testBit_two_pow_sub_one, Nat.testBit_two_pow_sub_one,
    Nat.testBit_mul_two_pow, Nat.testBit_div_two_pow]
  by_cases hik : k ≤ i
  · have hlow : ¬ i < k := Nat.not_lt.mpr hik
    rw [Nat.sub_add_cancel hik]
    by_cases hi : i < 64
    · simp [hik, hlow, hi]
    · have hhigh : n.testBit i = false :=
        Nat.testBit_lt_two_pow (hn.trans_le (Nat.pow_le_pow_right (by decide) (by omega)))
      simp [hhigh]
  · have hlow : i < k := Nat.not_le.mp hik
    have hi : i < 64 := hlow.trans hk
    simp [hik, hlow, hi]

theorem arenaAligned_eq {used k : ℕ} (hk : k < 64) (hused : used + (2 ^ k - 1) < 2 ^ 64) :
    arenaAligned used (2 ^ k) = (used + (2 ^ k - 1)) / 2 ^ k * 2 ^ k := by
  rw [arenaAligned, Nat.mod_eq_of_lt hused, and_mask_eq hk hused]

theorem arenaAligned_ge {used k : ℕ} (hk : k < 64) (hused : used + (2 ^ k - 1) < 2 ^ 64) :
    used ≤ arenaAligned used (2 ^ k) := by
  have hpos : 0 < 2 ^ k := Nat.two_pow_pos k
  have hdiv := Nat.div_add_mod' (used + (2 ^ k - 1)) (2 ^ k)
  have hmod := Nat.mod_lt (used + (2 ^ k - 1)) hpos
  rw [arenaAligned_eq hk hused]
  omega

/-- Without an alignment to keep, the next bytes are handed out. -/
theorem arenaAlloc_one {n : ℕ} (hroom : arena.used + n ≤ arena.cap) (hcap : arena.cap < 2 ^ 64) :
    arenaAlloc arena n 1 =
      (some (arena.base + arena.used), { arena with used := arena.used + n }) := by
  have haligned : arenaAligned arena.used 1 = arena.used := by
    have heq : arenaAligned arena.used (2 ^ 0) = (arena.used + (2 ^ 0 - 1)) / 2 ^ 0 * 2 ^ 0 :=
      arenaAligned_eq (by decide) (by omega)
    simpa using heq
  unfold arenaAlloc
  rw [haligned]
  refine if_neg ?_
  simp only [Bool.or_eq_true, decide_eq_true_eq, not_or]
  omega

/-- The cursor only moves forward, and not past the end. -/
theorem Arena.Allocates.bounds (h : arena.Allocates arena') (hcap : arena.cap ≤ 2 ^ 63)
    (hused : arena.used ≤ arena.cap) :
    arena.used ≤ arena'.used ∧ arena'.used ≤ arena'.cap ∧ arena'.cap = arena.cap := by
  induction h with
  | refl => exact ⟨le_rfl, hused, rfl⟩
  | @alloc arena' h n k hk ih =>
    obtain ⟨hgrows, hfits, hsame⟩ := ih
    have hpow : 2 ^ k ≤ 2 ^ 63 := Nat.pow_le_pow_right (by decide) (by omega)
    have haligned : arena'.used ≤ arenaAligned arena'.used (2 ^ k) :=
      arenaAligned_ge hk (by omega)
    unfold arenaAlloc
    dsimp only
    split
    · exact ⟨hgrows, hfits, hsame⟩
    · next hroom =>
      simp only [Bool.or_eq_true, decide_eq_true_eq, not_or, Nat.not_lt] at hroom
      refine ⟨?_, ?_, hsame⟩ <;> dsimp only <;> omega

theorem Router.Scratches.allocates (hrouter : router.AllocatesScratch)
    (h : router.Scratches arena arena') : arena.Allocates arena' := by
  cases h with
  | none => exact .refl _
  | file =>
    have halign : FILE_CTX_SIZE = 2 ^ 2 := rfl
    rw [halign]
    exact .alloc (.refl _) (2 ^ 2) (by decide)
  | handler hmem req handlers => exact hrouter _ hmem req arena handlers

/-! ## Assertions -/

def AssertsHold (log : List Event) : Prop := Event.assertFailed ∉ log

theorem AssertsHold.append (h : AssertsHold log) (h' : AssertsHold log') :
    AssertsHold (log ++ log') := by
  unfold AssertsHold
  rw [List.mem_append, not_or]
  exact ⟨h, h'⟩

theorem AssertsHold.emit (h : AssertsHold log) {e : Event} (he : e ≠ .assertFailed) :
    AssertsHold (log ++ [e]) :=
  h.append fun hmem => he (List.mem_singleton.mp hmem).symm

theorem AssertsHold.recvs (h : AssertsHold log) (outs : List RecvOutcome) :
    AssertsHold (log ++ outs.map Event.recv) := by
  refine h.append fun hmem => ?_
  obtain ⟨out, -, hout⟩ := List.mem_map.mp hmem
  cases hout

theorem Io.assert_of (io : Io) {b : Bool} (h : b = true) : io.assert b = io := if_pos h

/-! ## The invariant -/

structure HttpBuffer.Bounded (b : HttpBuffer) (capacity : ℕ) : Prop where
  filled : b.size ≤ b.cap
  sized : b.cap = capacity
  allocated : b.address.isSome

structure Connection.Bounded (conn : Connection) : Prop where
  descriptor : 0 < conn.fd
  request : conn.mem.reqBuf.Bounded HTTP_MAX_REQUEST_LEN
  response : conn.mem.respBuf.Bounded HTTP_RESPONSE_BUFFER_SIZE
  dechunked : conn.mem.bodyDechunked.Bounded HTTP_MAX_DECHUNK_SIZE
  marked : conn.mem.reqMark ≤ conn.mem.arena.used
  scratch : conn.mem.arena.used ≤ conn.mem.arena.cap
  sized : conn.mem.arena.cap = HTTP_CONN_ARENA_SIZE

/-- Where the cursors stand in a phase. Before a response is chosen nothing of the scratch arena
is in use. -/
def Connection.Stands (conn : Connection) : ConnPhase → Prop
  | .readingRequest => conn.mem.arena.used = conn.mem.reqMark
  | .sending100 => conn.mem.arena.used = conn.mem.reqMark ∧
      conn.st.getSend.sent < CONTINUE_100.length
  | .readingBodyCl => conn.mem.arena.used = conn.mem.reqMark ∧
      conn.st.getCl.received = conn.mem.reqBuf.size - conn.bodyStart
  | .readingBodyChunked => conn.mem.arena.used = conn.mem.reqMark ∧
      conn.bodyStart + conn.st.getChunked.consumed ≤ conn.mem.reqBuf.size ∧
      (conn.st.getChunked.dec.phase = .data → 0 < conn.st.getChunked.dec.remaining)
  | .building => conn.mem.arena.used = conn.mem.reqMark ∧
      conn.nextReqOffset ≤ conn.mem.reqBuf.size
  | .sendingResponse => conn.st.getSend.sent < conn.mem.respBuf.size
  | .sendingResponseStream => conn.st.getStream.phase.Sends →
      conn.st.getStream.send.sent < conn.mem.respBuf.size
  | .closed => True

/-- What a step that returns `r` keeps. -/
structure StepBounded (r : ConnPhase × Machine σ) : Prop where
  bounded : r.2.conn.Bounded
  stands : r.2.conn.Stands r.1
  asserts : AssertsHold r.2.io.log

/-! ## Responses -/

theorem HttpBuffer.Bounded.stage (hb : b.Bounded HTTP_RESPONSE_BUFFER_SIZE) {resp : HttpResponse}
    {capacity : ℕ} {keepAlive : Bool} {now : ℤ} (hcap : capacity = b.cap)
    (hok : (responseSerialize resp capacity keepAlive now).failed = false) :
    (b.stage (responseSerialize resp capacity keepAlive now)).Bounded HTTP_RESPONSE_BUFFER_SIZE ∧
      0 < (b.stage (responseSerialize resp capacity keepAlive now)).size := by
  obtain ⟨text, htext⟩ : ∃ text,
      (responseSerialize resp capacity keepAlive now).result = some text :=
    ⟨_, by rw [Out.result, hok]; rfl⟩
  obtain ⟨hpos, hfits⟩ := responseSerialize_length htext
  have hsize : (b.stage (responseSerialize resp capacity keepAlive now)).size = text.length := by
    unfold HttpBuffer.stage
    rw [htext]
    rfl
  refine ⟨⟨?_, hb.sized, hb.allocated⟩, ?_⟩
  · rw [hsize]
    exact hcap ▸ hfits
  · rwa [hsize]

theorem Machine.errorBegin_bounded (hm : m.conn.Bounded) (hlog : AssertsHold m.io.log)
    (htimely : m.io.Timely) (status : ParseStatus) : StepBounded (m.errorBegin status) := by
  obtain ⟨now, hnow, hout, -, hsame⟩ := responseSerializeNow_timely htimely
    (responseErrorFromStatus status) m.conn.mem.respBuf.cap false
  have hok := responseErrorFromStatus_fits status false hnow
  rw [← hm.response.sized] at hok
  obtain ⟨hstaged, hpos⟩ := hm.response.stage rfl hok
  rw [← hout] at hstaged hpos
  refine ⟨{ hm with response := hstaged },
    hpos, ?_⟩
  have hquiet : AssertsHold (responseSerializeNow (responseErrorFromStatus status)
      m.conn.mem.respBuf.cap false m.io).2.log := hsame ▸ hlog
  exact hquiet.emit (by simp)

/-! ## Entering the body -/

theorem Machine.bodyDispatch_bounded (hm : m.conn.Bounded) (hlog : AssertsHold m.io.log)
    (hfresh : m.conn.mem.arena.used = m.conn.mem.reqMark)
    (hstart : m.conn.bodyStart ≤ m.conn.mem.reqBuf.size) : StepBounded m.bodyDispatch := by
  have hasserts : phaseBodyDispatchAsserts m.conn = true := by
    simp [phaseBodyDispatchAsserts, hstart]
  unfold Machine.bodyDispatch
  rw [hasserts, Machine.assert_true]
  dsimp only
  unfold phaseBodyDispatch
  split
  · exact ⟨{ hm with dechunked := ⟨Nat.zero_le _, hm.dechunked.sized, hm.dechunked.allocated⟩ },
      ⟨hfresh, hstart, fun h => by cases h⟩, hlog⟩
  · split
    · exact ⟨{ hm with }, ⟨hfresh, hstart⟩, hlog⟩
    · exact ⟨{ hm with }, ⟨hfresh, rfl⟩, hlog⟩

/-! ## Reading -/

theorem connRecvHeader_asserts {fd : ℤ} {io : Io} (hb : b.Backed) (haddress : b.address.isSome)
    (hfd : 0 ≤ fd) (hlog : AssertsHold io.log) :
    AssertsHold (connRecvHeader fd b io).2.2.log ∧
      (connRecvHeader fd b io).2.2.clock = io.clock := by
  have hasserts : (b.address.isSome && decide (0 ≤ fd)) = true := by simp [haddress, hfd]
  simp only [connRecvHeader, io.assert_of hasserts]
  have hspec := connRecvHeaderLoop_spec io.recvs io.log hb
  generalize connRecvHeaderLoop io.recvs b io.log = result at hspec ⊢
  obtain ⟨res, b', rest, log'⟩ := result
  obtain ⟨⟨outs, hlog', -⟩, -⟩ := hspec
  exact ⟨hlog' ▸ hlog.recvs outs, trivial⟩

theorem connRecvHeaderLoop_total (recvs : List RecvOutcome) (b : HttpBuffer) (log : List Event) :
    (connRecvHeaderLoop recvs b log).1.totalReceived = (connRecvHeaderLoop recvs b log).2.1.size := by
  fun_induction connRecvHeaderLoop recvs b log <;> first | rfl | assumption

/-- `req_buf` has grown within its capacity. -/
theorem HttpBuffer.Read.bounded {b' : HttpBuffer} {outs : List RecvOutcome} {capacity : ℕ}
    (h : b.Read outs b') (hb : b.Bounded capacity) : b'.Bounded capacity :=
  ⟨h.fits hb.filled, h.received.cap.trans hb.sized, h.received.address ▸ hb.allocated⟩

theorem stepHeaderRead_bounded (hm : m.conn.Bounded) (hwf : m.conn.WellFormed)
    (hfresh : m.conn.mem.arena.used = m.conn.mem.reqMark) (hlog : AssertsHold m.io.log)
    (htimely : m.io.Timely) : StepBounded (stepHeaderRead m) := by
  obtain ⟨outs, hread, -, hend, -⟩ := connRecvHeader_spec m.conn.fd m.io hwf.backed
  obtain ⟨hquiet, hclock⟩ := connRecvHeader_asserts hwf.backed hm.request.allocated
    hm.descriptor.le hlog
  unfold stepHeaderRead
  have htotal : (connRecvHeader m.conn.fd m.conn.mem.reqBuf m.io).1.totalReceived =
      (connRecvHeader m.conn.fd m.conn.mem.reqBuf m.io).2.1.size := connRecvHeaderLoop_total _ _ _
  generalize connRecvHeader m.conn.fd m.conn.mem.reqBuf m.io = result
    at hread hend hquiet hclock htotal ⊢
  obtain ⟨⟨status, total, bodyStart⟩, buf, io⟩ := result
  dsimp only at hread hend hquiet hclock htotal ⊢
  have hconn : Connection.Bounded { m.conn with mem.reqBuf := buf } :=
    { hm with request := hread.bounded hm.request }
  have htimely' : io.Timely := fun now hnow => htimely now (hclock ▸ hnow)
  cases status with
  | hasMore => exact ⟨hconn, hfresh, hquiet⟩
  | peerClosed => exact ⟨hconn, trivial, hquiet⟩
  | ioError => exact ⟨hconn, trivial, hquiet⟩
  | tooLarge =>
    exact Machine.errorBegin_bounded (m := { m with conn.mem.reqBuf := buf, io := io }) hconn
      hquiet htimely' _
  | ok =>
    obtain ⟨terminator, hfind, rfl⟩ := hend
    have hstart : terminator + 4 ≤ buf.size := by
      rw [← hread.received.backed.length_contents]
      exact memmem_add_length_le hfind
    have hasserts : decide (terminator + 4 ≤ total) = true := by
      rw [htotal]
      exact decide_eq_true hstart
    dsimp only
    rw [hasserts, Machine.assert_true]
    dsimp only
    generalize haccept : headAccept { m.conn with mem.reqBuf := buf } (terminator + 4) = accepted
    obtain ⟨verdict, read⟩ := accepted
    obtain ⟨⟨req, start, keep, coding, len, rfl⟩, haccepts⟩ := headAccept_spec haccept
    have hread' : Connection.Bounded
        { m.conn with
          mem.reqBuf := buf
          reqParsed := req
          bodyStart := start
          keepAlive := keep
          bodyCoding := coding
          bodyLen := len } :=
      { hconn with }
    cases verdict with
    | error status => exact Machine.errorBegin_bounded hread' hquiet htimely' _
    | send100 =>
      have hpos : 0 < CONTINUE_100.length := by decide
      exact ⟨{ hconn with }, ⟨hfresh, hpos⟩, hquiet⟩
    | dispatch =>
      have hstart' : start = terminator + 4 := (haccepts (by simp)).start
      exact Machine.bodyDispatch_bounded hread' hquiet hfresh (hstart' ▸ hstart)

theorem Connection.WellFormed.bodyStart_le (hwf : conn.WellFormed)
    (hphase : conn.phase.AfterHead) : conn.bodyStart ≤ conn.mem.reqBuf.size := by
  rw [← hwf.backed.length_contents]
  exact (hwf.head hphase).bodyStart_le

theorem stepBodyClRead_bounded (hm : m.conn.Bounded) (hwf : m.conn.WellFormed)
    (hphase : m.conn.phase = .readingBodyCl)
    (hstands : m.conn.mem.arena.used = m.conn.mem.reqMark ∧
      m.conn.st.getCl.received = m.conn.mem.reqBuf.size - m.conn.bodyStart)
    (hlog : AssertsHold m.io.log) (htimely : m.io.Timely) : StepBounded (stepBodyClRead m) := by
  obtain ⟨hfresh, hreceived⟩ := hstands
  have hstart := hwf.bodyStart_le (.inr (.inl hphase))
  have hasserts : (m.conn.mem.reqBuf.address.isSome && decide (0 ≤ m.conn.fd)) = true := by
    simp [hm.request.allocated, hm.descriptor.le]
  simp only [stepBodyClRead, connRecvBodyCl, m.io.assert_of hasserts]
  have hspec := connRecvBodyClLoop_spec m.conn.bodyStart m.conn.bodyLen m.io.recvs
    m.conn.st.getCl m.io.log hwf.backed
  generalize connRecvBodyClLoop m.conn.bodyStart m.conn.bodyLen m.io.recvs m.conn.mem.reqBuf
    m.conn.st.getCl m.io.log = result at hspec ⊢
  obtain ⟨⟨status, next⟩, buf, st, rest, log'⟩ := result
  obtain ⟨⟨outs, hlog', hscript, hgot, -⟩, hcount, hend⟩ := hspec
  have hread := HttpBuffer.Read.of_script hwf.backed hgot hscript
  have hquiet : AssertsHold log' := hlog' ▸ hlog.recvs outs
  have hsize := hgot.size hwf.backed
  have hcounted : st.received = buf.size - m.conn.bodyStart := by omega
  have hconn : ∀ (st' : PhaseSt) (req : HttpRequest) (n : ℕ), Connection.Bounded
      { m.conn with mem.reqBuf := buf, st := st', reqParsed := req, nextReqOffset := n } :=
    fun st' req n => { hm with request := hread.bounded hm.request }
  have hfails := Machine.errorBegin_bounded
    (m := { m with
      conn.mem.reqBuf := buf
      conn.st := .cl st
      io := { m.io with recvs := rest, log := log' } })
    (hconn (.cl st) m.conn.reqParsed m.conn.nextReqOffset) hquiet htimely .badRequest
  cases status with
  | ok =>
    obtain ⟨hall, hnext⟩ := hend
    refine ⟨hconn _ _ _, ⟨hfresh, ?_⟩, hquiet⟩
    dsimp only at hall hnext ⊢
    rw [hnext]
    split <;> omega
  | hasMore => exact ⟨hconn _ _ _, ⟨hfresh, hcounted⟩, hquiet⟩
  | tooLarge => exact hfails
  | peerClosed => exact hfails
  | ioError => exact hfails
  | badData => exact hfails

theorem chunkAdvanceAsserts_iff (dec : ChunkDecoder) :
    chunkAdvanceAsserts dec = true ↔ (dec.phase = .data → 0 < dec.remaining) := by
  simp only [chunkAdvanceAsserts, Bool.or_eq_true, bne_iff_ne, decide_eq_true_eq]
  exact imp_iff_not_or.symm

/-- The reader of a chunked body stands inside its two buffers. -/
theorem Connection.Bounded.chunkedRead (hm : conn.Bounded)
    (hstands : conn.Stands .readingBodyChunked) : conn.chunkedRead.Bounds conn.bodyStart :=
  ⟨⟨hstands.2.1, hm.dechunked.filled, (chunkAdvanceAsserts_iff _).mpr hstands.2.2⟩,
    hm.request.filled⟩

theorem stepBodyChunkedRead_bounded (hm : m.conn.Bounded) (hwf : m.conn.WellFormed)
    (hphase : m.conn.phase = .readingBodyChunked) (hstands : m.conn.Stands .readingBodyChunked)
    (hlog : AssertsHold m.io.log) (htimely : m.io.Timely) :
    StepBounded (stepBodyChunkedRead m) := by
  obtain ⟨hstart, hreading⟩ := hwf.chunked hphase
  have hhead : m.conn.headBytes.length = m.conn.bodyStart := by
    rw [Connection.headBytes, List.length_take, Nat.min_eq_left hstart]
  obtain ⟨hfresh, hconsumed, -⟩ := id hstands
  have hasserts : (decide (0 < m.conn.fd) && m.conn.mem.reqBuf.address.isSome &&
      m.conn.mem.bodyDechunked.address.isSome &&
      decide (m.conn.bodyStart + m.conn.st.getChunked.consumed ≤ m.conn.mem.reqBuf.size)) =
      true := by
    simp [hm.descriptor, hm.request.allocated, hm.dechunked.allocated, hconsumed]
  have hspec := connRecvBodyChunkedLoop_spec m.io.recvs m.io.log hreading
  obtain ⟨-, hbounds, hsame⟩ := connRecvBodyChunkedLoop_bounds m.io.recvs m.io.log
    (hm.chunkedRead hstands)
  rw [hhead] at hspec
  simp only [stepBodyChunkedRead, connRecvBodyChunked, m.io.assert_of hasserts]
  simp only [Connection.chunkedRead] at hspec hbounds hsame
  generalize connRecvBodyChunkedLoop m.conn.bodyStart m.io.recvs _ m.io.log = result
    at hspec hbounds hsame ⊢
  obtain ⟨⟨status, next⟩, r, rest, log'⟩ := result
  obtain ⟨outs, hlog', -, hpost, -⟩ := hspec
  have hquiet : AssertsHold log' := hlog' ▸ hlog.recvs outs
  obtain ⟨hreqcap, hreqaddress, hdcap, hdaddress⟩ := hsame
  dsimp only at hbounds hreqcap hreqaddress hdcap hdaddress
  have hconn : ∀ (req : HttpRequest) (n : ℕ), Connection.Bounded
      { m.conn with
        mem.reqBuf := r.reqBuf
        mem.bodyDechunked := r.dechunked
        st := .chunked r.st
        reqParsed := req
        nextReqOffset := n } := fun req n =>
    { hm with
      request := ⟨hbounds.filled, hreqcap.trans hm.request.sized,
        hreqaddress ▸ hm.request.allocated⟩
      dechunked := ⟨hbounds.decoded, hdcap.trans hm.dechunked.sized,
        hdaddress ▸ hm.dechunked.allocated⟩ }
  have hfails : ∀ status', StepBounded (Machine.errorBegin
      { m with
        conn.mem.reqBuf := r.reqBuf
        conn.mem.bodyDechunked := r.dechunked
        conn.st := .chunked r.st
        io := { m.io with recvs := rest, log := log' } } status') := by
    intro status'
    apply Machine.errorBegin_bounded
    · exact hconn m.conn.reqParsed m.conn.nextReqOffset
    · exact hquiet
    · exact htimely
  cases status with
  | ok =>
    obtain ⟨s, n, -, hnext, -, hst⟩ := hpost.result
    have hconsumed' := hbounds.consumed
    rw [hhead] at hnext
    rw [hst] at hconsumed'
    exact ⟨hconn _ _, ⟨hfresh, hnext ▸ hconsumed'⟩, hquiet⟩
  | hasMore =>
    exact ⟨hconn _ _, ⟨hfresh, hbounds.consumed, (chunkAdvanceAsserts_iff _).mp hbounds.decoder⟩,
      hquiet⟩
  | tooLarge => exact hfails _
  | peerClosed => exact hfails _
  | ioError => exact hfails _
  | badData => exact hfails _

/-! ## Sending -/

theorem Io.sendAsserted_of {io : Io} {fd : ℤ} {st : SendSt} (haddress : b.address.isSome)
    (hfd : 0 ≤ fd) (hsent : st.sent < b.size) : io.sendAsserted fd b st = io := by
  refine io.assert_of ?_
  simp [haddress, hfd, hsent]

/-- `send` accepts no more than it is offered, so a response that is not all out leaves the cursor
inside. -/
theorem SendSt.advance_lt {st : SendSt} {o : SendOutcome} (hsent : st.sent < b.size)
    (hclip : o.clip (b.contents.drop st.sent).length = o)
    (hmore : o.status b.size st.sent = .hasMore) : (st.advance o).sent < b.size := by
  cases o with
  | accepted n =>
    have hn : min n (b.contents.drop st.sent).length = n := SendOutcome.accepted.inj hclip
    have hlen : (b.contents.drop st.sent).length ≤ b.size - st.sent := by
      rw [List.length_drop, HttpBuffer.contents, List.length_take]
      omega
    have hne : st.sent + n ≠ b.size := by
      intro heq
      simp [SendOutcome.status, heq] at hmore
    show st.sent + n < b.size
    omega
  | _ => exact hsent

theorem stepSend100_bounded (hm : m.conn.Bounded) (hwf : m.conn.WellFormed)
    (hphase : m.conn.phase = .sending100) (hstands : m.conn.Stands .sending100)
    (hlog : AssertsHold m.io.log) : StepBounded (stepSend100 m) := by
  obtain ⟨hfresh, hsent⟩ := hstands
  have hstart := hwf.bodyStart_le (.inl hphase)
  have hasserted : m.io.sendAsserted m.conn.fd continue100Buf m.conn.st.getSend = m.io :=
    Io.sendAsserted_of rfl hm.descriptor.le hsent
  simp only [stepSend100, responseSend_eq, hasserted]
  have hclip := m.io.nextSend_clip
    (continue100Buf.contents.drop m.conn.st.getSend.sent).length
  generalize m.io.nextSend _ = o at hclip ⊢
  have hquiet := hlog.emit (e := .send (continue100Buf.contents.drop m.conn.st.getSend.sent) o)
    (by simp)
  have hconn : Connection.Bounded { m.conn with st := .send (m.conn.st.getSend.advance o) } :=
    { hm with }
  cases hst : o.status continue100Buf.size m.conn.st.getSend.sent with
  | hasMore => exact ⟨hconn, ⟨hfresh, SendSt.advance_lt hsent hclip hst⟩, hquiet⟩
  | ok => exact Machine.bodyDispatch_bounded hconn hquiet hfresh hstart
  | peerClosed => exact ⟨hconn, trivial, hquiet⟩
  | error => exact ⟨hconn, trivial, hquiet⟩

/-- A completed response gives the scratch arena back. -/
theorem responseComplete_bounded (hconn : conn.Bounded) :
    (responseComplete conn).2.Bounded ∧ (responseComplete conn).2.Stands (responseComplete conn).1 := by
  unfold responseComplete
  dsimp only
  split
  · exact ⟨{ hconn with }, trivial⟩
  · have hresponse := hconn.response
    exact ⟨{ hconn with
      response := ⟨Nat.zero_le _, hresponse.sized, hresponse.allocated⟩
      marked := le_rfl
      scratch := hconn.marked.trans hconn.scratch }, rfl⟩

theorem stepResponseSend_bounded (hm : m.conn.Bounded) (hstands : m.conn.Stands .sendingResponse)
    (hlog : AssertsHold m.io.log) : StepBounded (stepResponseSend m) := by
  have hsent : m.conn.st.getSend.sent < m.conn.mem.respBuf.size := hstands
  have hasserted : m.io.sendAsserted m.conn.fd m.conn.mem.respBuf m.conn.st.getSend = m.io :=
    Io.sendAsserted_of hm.response.allocated hm.descriptor.le hsent
  simp only [stepResponseSend, responseSend_eq, hasserted]
  generalize m.io.nextSend _ = o
  have hquiet := hlog.emit (e := .send (m.conn.mem.respBuf.contents.drop m.conn.st.getSend.sent) o)
    (by simp)
  have hconn : ∀ st, Connection.Bounded { m.conn with st := st } := fun st =>
    { hm with }
  cases hst : o.status m.conn.mem.respBuf.size m.conn.st.getSend.sent with
  | hasMore => exact ⟨hconn _, Nat.lt_of_le_of_lt (Nat.zero_le _) hsent, hquiet⟩
  | ok =>
    obtain ⟨hbounded, hphase⟩ := responseComplete_bounded
      (hconn (.send (m.conn.st.getSend.advance o)))
    exact ⟨hbounded, hphase, hquiet⟩
  | peerClosed => exact ⟨hconn _, trivial, hquiet⟩
  | error => exact ⟨hconn _, trivial, hquiet⟩

/-! ## Sending a streamed response -/

/-- What the stream loop keeps between its turns. -/
structure StreamBounded (m : Machine σ) : Prop where
  bounded : m.conn.Bounded
  stands : m.conn.Stands .sendingResponseStream
  asserts : AssertsHold m.io.log

theorem streamRelease_bounded (hm : m.conn.Bounded) (hlog : AssertsHold m.io.log) :
    (streamRelease m).conn.Bounded ∧ AssertsHold (streamRelease m).io.log := by
  unfold streamRelease
  split
  · exact ⟨{ hm with }, hlog.emit (by simp)⟩
  · exact ⟨{ hm with }, hlog⟩

theorem streamAbort_bounded (hm : m.conn.Bounded) (hlog : AssertsHold m.io.log) :
    StepBounded (ConnPhase.closed, (streamAbort m).2) := by
  obtain ⟨hconn, hquiet⟩ := streamRelease_bounded hm hlog
  exact ⟨{ hconn with }, trivial, hquiet⟩

/-- The assertions of `response_send` hold. -/
theorem StreamBounded.sent (h : StreamBounded m) {next : StreamPhase}
    (hnext : m.conn.streamNext = some next) (st : SendStreamSt) :
    (m.streamSent st).conn.Bounded ∧ AssertsHold (m.streamSent st).io.log := by
  have hsent := h.stands (Connection.sends_of_streamNext hnext).1
  have hasserted : m.io.sendAsserted m.conn.fd m.conn.mem.respBuf m.conn.st.getStream.send =
      m.io := Io.sendAsserted_of h.bounded.response.allocated h.bounded.descriptor.le hsent
  refine ⟨{ h.bounded with }, ?_⟩
  show AssertsHold ((m.io.sendAsserted _ _ _).log ++ _)
  rw [hasserted]
  exact h.asserts.emit (by simp)

theorem afterPull_asserts (h : AssertsHold m.io.log) : AssertsHold m.afterPull.io.log := by
  rw [afterPull_log]
  exact h.emit (by simp [Machine.pullCall])

theorem chunkFrame_length {payload frame : Bytes} {capacity : ℕ}
    (h : chunkFrame payload capacity = some frame) : 0 < frame.length ∧ frame.length ≤ capacity := by
  unfold chunkFrame at h
  dsimp only at h
  split at h
  · cases h
  · split at h
    · cases h
    · obtain rfl := Option.some.inj h
      simp only [List.length_append, CRLF_length] at *
      omega

theorem chunkFrameLast_length {frame : Bytes} {capacity : ℕ}
    (h : chunkFrameLast capacity = some frame) : 0 < frame.length ∧ frame.length ≤ capacity := by
  unfold chunkFrameLast at h
  split at h
  · cases h
  · next hroom =>
    have hlen : (ascii "0" ++ CRLF ++ CRLF).length = 5 := by decide
    rw [← Option.some.inj h, hlen]
    omega

/-- A frame that is put into `resp_buf` fits and is not empty. -/
theorem streamFrame_length {payload frame : Bytes} {capacity : ℕ}
    (h : streamFrame capacity payload = some frame) :
    0 < frame.length ∧ frame.length ≤ capacity := by
  cases payload with
  | nil => exact chunkFrameLast_length h
  | cons c payload => exact chunkFrame_length h

theorem LoopTurn.keepsBounded (hturn : LoopTurn m (none, m')) (h : StreamBounded m) :
    StreamBounded m' := by
  cases hturn with
  | sent hnext =>
    obtain ⟨hconn, hquiet⟩ := h.sent hnext _
    exact ⟨hconn, fun hsends => absurd hsends (Connection.sends_of_streamNext hnext).2, hquiet⟩
  | framed hphase hpull hframe =>
    obtain ⟨hpos, hfits⟩ := streamFrame_length hframe
    have hresponse := h.bounded.response
    exact ⟨{ h.bounded with response := ⟨hfits, hresponse.sized, hresponse.allocated⟩ },
      fun _ => hpos, afterPull_asserts h.asserts⟩

theorem LoopTurn.endsBounded {phase : ConnPhase} (hturn : LoopTurn m (some phase, m'))
    (h : StreamBounded m) : StepBounded (phase, m') := by
  cases hturn with
  | blocked hnext hstatus =>
    obtain ⟨hconn, hquiet⟩ := h.sent hnext m.streamStays
    have hsent := h.stands (Connection.sends_of_streamNext hnext).1
    exact ⟨hconn, fun _ => SendSt.advance_lt hsent (m.io.nextSend_clip _) hstatus, hquiet⟩
  | failed hnext =>
    obtain ⟨hconn, hquiet⟩ := h.sent hnext m.streamStays
    exact streamAbort_bounded hconn hquiet
  | gaveUp => exact streamAbort_bounded { h.bounded with } (afterPull_asserts h.asserts)
  | done =>
    obtain ⟨hconn, hquiet⟩ := streamRelease_bounded h.bounded h.asserts
    obtain ⟨hbounded, hstands⟩ := responseComplete_bounded hconn
    exact ⟨hbounded, hstands, hquiet⟩

theorem stepResponseSendStream_bounded (h : StreamBounded m) :
    StepBounded (stepResponseSendStream m) :=
  stepResponseSendStream_rule StreamBounded (fun phase m => StepBounded (phase, m))
    (fun _ _ hm hturn => hturn.keepsBounded hm) (fun _ _ _ hm hturn => hturn.endsBounded hm) h

/-! ## Building a response -/

theorem requestConsume_bounded (hconn : conn.Bounded) : (requestConsume conn).Bounded := by
  have hfilled := hconn.request.filled
  refine { hconn with request := ?_ }
  unfold requestConsume
  dsimp only
  split
  · exact ⟨(Nat.sub_le _ _).trans hfilled, hconn.request.sized, hconn.request.allocated⟩
  · exact ⟨Nat.zero_le _, hconn.request.sized, hconn.request.allocated⟩

/-- Before a response is staged. -/
structure BuildBounded (m : Machine σ) : Prop where
  bounded : m.conn.Bounded
  asserts : AssertsHold m.io.log
  timely : m.io.Timely

theorem BuildBounded.serialize (h : BuildBounded m) (res : HttpResponse) :
    BuildBounded (m.serialize res).2 ∧ ∃ now, TimeReading now ∧
      (m.serialize res).1 = responseSerialize res m.conn.mem.respBuf.cap m.conn.keepAlive now := by
  obtain ⟨hm, hlog, htimely⟩ := h
  obtain ⟨now, hnow, hout, htimely', hsame⟩ := responseSerializeNow_timely htimely res
    m.conn.mem.respBuf.cap m.conn.keepAlive
  have hquiet : AssertsHold (m.serialize res).2.io.log := by
    have hlog' : (m.serialize res).2.io.log = m.io.log := hsame
    rwa [hlog']
  exact ⟨⟨{ hm with response := ⟨hm.response.filled, hm.response.sized, hm.response.allocated⟩ },
    hquiet, htimely'⟩,
    now, hnow, hout⟩

/-- A response that has been serialized is in `resp_buf`, and there is something to send. -/
theorem BuildBounded.staged (h : BuildBounded m) {res : HttpResponse}
    (hok : (m.serialize res).1.failed = false) :
    ((m.serialize res).2.staged (m.serialize res).1).conn.Bounded ∧
      0 < ((m.serialize res).2.staged (m.serialize res).1).conn.mem.respBuf.size ∧
      AssertsHold ((m.serialize res).2.staged (m.serialize res).1).io.log := by
  obtain ⟨⟨hbounded, hquiet, -⟩, now, -, hout⟩ := h.serialize res
  have hok' : (responseSerialize res m.conn.mem.respBuf.cap m.conn.keepAlive now).failed =
      false := hout ▸ hok
  obtain ⟨hstaged, hpos⟩ := h.bounded.response.stage rfl hok'
  rw [← hout] at hstaged hpos
  exact ⟨{ hbounded with response := ⟨hstaged.filled, hstaged.sized, hstaged.allocated⟩ },
    hpos, hquiet.emit (by simp)⟩

theorem BuildBounded.send (h : BuildBounded m) {res : HttpResponse}
    (hok : (m.serialize res).1.failed = false) :
    StepBounded ((phaseSendBegin (requestConsume
      (((m.serialize res).2.assert !(m.serialize res).1.failed).staged
        (m.serialize res).1).conn)).1,
      { ((m.serialize res).2.assert !(m.serialize res).1.failed).staged (m.serialize res).1 with
        conn := (phaseSendBegin (requestConsume
          (((m.serialize res).2.assert !(m.serialize res).1.failed).staged
            (m.serialize res).1).conn)).2 }) := by
  obtain ⟨hbounded, hpos, hquiet⟩ := h.staged hok
  have hnot : (!(m.serialize res).1.failed) = true := by rw [hok]; rfl
  rw [hnot, Machine.assert_true]
  have hconsumed := requestConsume_bounded hbounded
  exact ⟨{ hconsumed with }, hpos, hquiet⟩

theorem buildBuffered_bounded (h : BuildBounded m) (res : HttpResponse) :
    StepBounded (buildBuffered res m) := by
  unfold buildBuffered
  generalize (if m.conn.reqParsed.requestLine.method = .head then { res with headOnly := true }
    else res) = res'
  dsimp only
  by_cases hfailed : (m.serialize res').1.failed = true
  · simp only [hfailed, if_true]
    obtain ⟨h', -⟩ := h.serialize res'
    obtain ⟨-, now, hnow, hout⟩ := h'.serialize (responseErrorFromStatus .serverError)
    refine h'.send ?_
    rw [hout, h'.bounded.response.sized]
    exact responseErrorFromStatus_fits .serverError _ hnow
  · simp only [hfailed]
    exact h.send (Bool.not_eq_true _ ▸ hfailed)

theorem responseBuild_bounded (h : BuildBounded m) (res : HttpResponse) :
    StepBounded (responseBuild res m) := by
  unfold responseBuild
  cases res.body with
  | none => exact buildBuffered_bounded h res
  | buffer body size => exact buildBuffered_bounded h res
  | stream stream =>
    have hproducer : BuildBounded { m with conn.producer := stream } :=
      ⟨{ h.bounded with }, h.asserts, h.timely⟩
    dsimp only
    generalize { m with conn.producer := stream } = m₁ at hproducer ⊢
    split
    · obtain ⟨hserialized, -⟩ := hproducer.serialize res
      obtain ⟨hreleased, hquiet⟩ := streamRelease_bounded hserialized.bounded hserialized.asserts
      refine buildBuffered_bounded ⟨hreleased, hquiet, ?_⟩ _
      unfold streamRelease
      split <;> exact hserialized.timely
    · next hok =>
      obtain ⟨hbounded, hpos, hquiet⟩ := hproducer.staged (Bool.not_eq_true _ ▸ hok)
      have hconsumed := requestConsume_bounded hbounded
      exact ⟨{ hconsumed with }, fun _ => hpos, hquiet⟩

theorem responseDispatch_bounded (hrouter : router.AllocatesScratch) (h : BuildBounded m) :
    BuildBounded (responseDispatch router m).2 := by
  obtain ⟨scratch, world, evs, hscratches, hhandled, heq⟩ := responseDispatch_dispatched router m
  obtain ⟨hm, hlog, htimely⟩ := h
  have hcap : m.conn.mem.arena.cap ≤ 2 ^ 63 := by
    rw [hm.sized]
    decide
  obtain ⟨hgrows, hfits, hsame⟩ := (hscratches.allocates hrouter).bounds hcap hm.scratch
  rw [heq]
  refine ⟨{ hm with
    marked := hm.marked.trans hgrows
    scratch := hfits
    sized := hsame.trans hm.sized }, hlog.append fun hmem => ?_, htimely⟩
  obtain ⟨method, path, req, hhandled⟩ := hhandled _ hmem
  cases hhandled

/-! ## Runs -/

/-- Every step keeps the bounds, and makes no assertion fail. -/
theorem stepConn_bounded (hrouter : router.AllocatesScratch) (hm : m.conn.Bounded)
    (hwf : m.conn.WellFormed) (hstands : m.conn.Stands m.conn.phase)
    (hlog : AssertsHold m.io.log) (htimely : m.io.Timely) : StepBounded (stepConn router m) := by
  cases hphase : m.conn.phase <;> rw [hphase] at hstands <;> simp only [stepConn, hphase]
  case readingRequest => exact stepHeaderRead_bounded hm hwf hstands hlog htimely
  case readingBodyCl => exact stepBodyClRead_bounded hm hwf hphase hstands hlog htimely
  case readingBodyChunked => exact stepBodyChunkedRead_bounded hm hwf hphase hstands hlog htimely
  case sending100 => exact stepSend100_bounded hm hwf hphase hstands hlog
  case building =>
    exact responseBuild_bounded (responseDispatch_bounded hrouter ⟨hm, hlog, htimely⟩) _
  case sendingResponse => exact stepResponseSend_bounded hm hstands hlog
  case sendingResponseStream => exact stepResponseSendStream_bounded ⟨hm, hstands, hlog⟩
  case closed => exact ⟨hm, trivial, hlog⟩

/-- The run lemma of `stepConn_bounded`, as long as the clock does not fail. -/
theorem Reaches.bounded {m' : Machine σ} (hrouter : router.AllocatesScratch)
    (h : Reaches router (fun m => m.io.Timely) m m') (hwf : m.conn.WellFormed)
    (hm : StepBounded (m.conn.phase, m)) : StepBounded (m'.conn.phase, m') := by
  refine Runs.invariant (fun m => StepBounded (m.conn.phase, m)) h hm fun a b hreaches ha hnext => ?_
  cases hnext with
  | wake w => exact ⟨ha.bounded, ha.stands, ha.asserts⟩
  | turn hopen htimely =>
    obtain ⟨hbounded, hstands, hquiet⟩ := stepConn_bounded hrouter ha.bounded
      (Reaches.wellFormed hreaches hwf) ha.stands ha.asserts htimely
    refine ⟨?_, ?_, ?_⟩
    · exact { hbounded with }
    · show Connection.Stands (stepPhase router a).conn (stepConn router a).1
      generalize hr : stepConn router a = r at hstands
      obtain ⟨phase, m'⟩ := r
      rw [stepPhase_conn, hr]
      cases phase <;> exact hstands
    · rw [stepPhase_log]
      exact hquiet.emit (by simp)

/-- The backing memory has room for the three buffers and some slack. -/
theorem connectionInit_mem (slot : Connection) (backing : ℕ) (newFd : ℤ) :
    (connectionInit slot backing HTTP_CONN_ARENA_SIZE newFd).mem =
      { arena :=
          { base := backing
            cap := HTTP_CONN_ARENA_SIZE
            used := HTTP_CONN_ARENA_SIZE - HTTP_ARENA_SLACK }
        reqMark := HTTP_CONN_ARENA_SIZE - HTTP_ARENA_SLACK
        reqBuf := { slot.mem.reqBuf with
          address := some backing, cap := HTTP_MAX_REQUEST_LEN, size := 0 }
        respBuf := { slot.mem.respBuf with
          address := some (backing + HTTP_MAX_REQUEST_LEN)
          cap := HTTP_RESPONSE_BUFFER_SIZE
          size := 0 }
        bodyDechunked := { slot.mem.bodyDechunked with
          address := some (backing + (HTTP_MAX_REQUEST_LEN + HTTP_RESPONSE_BUFFER_SIZE))
          cap := HTTP_MAX_DECHUNK_SIZE
          size := 0 } } := by
  have hcap : HTTP_CONN_ARENA_SIZE < 2 ^ 64 := by decide
  have halloc : ∀ used n, used + n ≤ HTTP_CONN_ARENA_SIZE →
      arenaAlloc { base := backing, cap := HTTP_CONN_ARENA_SIZE, used := used } n 1 =
        (some (backing + used), { base := backing, cap := HTTP_CONN_ARENA_SIZE, used := used + n }) :=
    fun used n hroom => arenaAlloc_one hroom hcap
  have hreq := halloc 0 HTTP_MAX_REQUEST_LEN (by decide)
  have hresp := halloc (0 + HTTP_MAX_REQUEST_LEN) HTTP_RESPONSE_BUFFER_SIZE (by decide)
  have hdechunked := halloc (0 + HTTP_MAX_REQUEST_LEN + HTTP_RESPONSE_BUFFER_SIZE)
    HTTP_MAX_DECHUNK_SIZE (by decide)
  have hused : 0 + HTTP_MAX_REQUEST_LEN + HTTP_RESPONSE_BUFFER_SIZE + HTTP_MAX_DECHUNK_SIZE =
      HTTP_CONN_ARENA_SIZE - HTTP_ARENA_SLACK := by decide
  simp only [Nat.zero_add, Nat.add_zero] at hreq hresp hdechunked hused
  simp only [connectionInit, bufferInit, arenaInit, arenaMark, hreq, hresp, hdechunked, hused]

theorem Machine.ofSlot_bounded (slot : Connection) (backing : ℕ) {newFd : ℤ} (hfd : 0 < newFd)
    (world : World σ) :
    StepBounded (.readingRequest,
      Machine.ofSlot slot backing HTTP_CONN_ARENA_SIZE newFd world) := by
  have hmem : (Machine.ofSlot slot backing HTTP_CONN_ARENA_SIZE newFd world).conn.mem = _ :=
    connectionInit_mem slot backing newFd
  have hslack : HTTP_CONN_ARENA_SIZE - HTTP_ARENA_SLACK ≤ HTTP_CONN_ARENA_SIZE := Nat.sub_le _ _
  refine ⟨⟨hfd, ?_, ?_, ?_, ?_, ?_, ?_⟩, ?_, List.not_mem_nil⟩
  · rw [hmem]
    exact ⟨Nat.zero_le _, rfl, rfl⟩
  · rw [hmem]
    exact ⟨Nat.zero_le _, rfl, rfl⟩
  · rw [hmem]
    exact ⟨Nat.zero_le _, rfl, rfl⟩
  · rw [hmem]
  · rw [hmem]
    exact hslack
  · rw [hmem]
  · simp only [Connection.Stands]
    rw [hmem]

/-- The subtractions of sizes that the code neither asserts nor checks right before it makes
them. -/
structure Machine.Unwrapped (m : Machine σ) : Prop where
  decodes : m.conn.phase = .readingBodyChunked →
    connRecvBodyChunkedLoopAsserts m.conn.bodyStart m.io.recvs m.conn.chunkedRead = true
  consumes : m.conn.phase = .building → m.conn.nextReqOffset ≤ m.conn.mem.reqBuf.size
  serializes : ∀ resp keepAlive now,
    ∀ o ∈ serializeStages resp m.conn.mem.respBuf.cap keepAlive now, o.Within m.conn.mem.respBuf.cap
  allows : ∀ allowed, ∀ text ∈ allowStages ALLOW_STORAGE true [] allowed,
    text.length < ALLOW_STORAGE

theorem StepBounded.unwrapped (h : StepBounded (m.conn.phase, m)) : m.Unwrapped where
  decodes hphase := by
    have hstands := h.stands
    dsimp only at hstands
    rw [hphase] at hstands
    exact (connRecvBodyChunkedLoop_bounds m.io.recvs m.io.log (h.bounded.chunkedRead hstands)).1
  consumes hphase := by
    have hstands := h.stands
    dsimp only at hstands
    rw [hphase] at hstands
    exact hstands.2
  serializes resp keepAlive now := serializeStages_within resp _ keepAlive now
  allows allowed := allowStages_length (by decide) true allowed

/-- In every state that a connection of an accepted client gets into. -/
theorem connection_bounds (router : Router σ) (hrouter : router.AllocatesScratch)
    (slot : Connection) (backing : ℕ) (newFd : ℤ) (hfd : 0 < newFd) (world : World σ)
    (m : Machine σ) (hreaches : Reaches router (fun m => m.io.Timely)
      (.ofSlot slot backing HTTP_CONN_ARENA_SIZE newFd world) m) :
    m.conn.Bounded ∧
      (m.conn.phase.AfterHead → m.conn.bodyStart ≤ m.conn.mem.reqBuf.size) ∧
      m.conn.Stands m.conn.phase ∧ AssertsHold m.io.log ∧ m.Unwrapped := by
  have hwf := Machine.ofSlot_wellFormed slot backing HTTP_CONN_ARENA_SIZE newFd world
  have hbounded := hreaches.bounded hrouter hwf (Machine.ofSlot_bounded slot backing hfd world)
  exact ⟨hbounded.bounded, (hreaches.wellFormed hwf).bodyStart_le, hbounded.stands,
    hbounded.asserts, hbounded.unwrapped⟩

/-- The head of a chunked request and the beginning of its body have arrived. -/
def uploadClient : Machine Unit :=
  stepPhase {} (newClient.wake
    { recvs := [.data (ascii "POST / HTTP/1.1" ++ CRLF ++ ascii "Host: a" ++ CRLF ++
        ascii "Transfer-Encoding: chunked" ++ CRLF ++ CRLF ++ ascii "5" ++ CRLF ++ ascii "he")]
      clock := [784111777] })

theorem uploadClient_reaches : Reaches {} (fun m => m.io.Timely) newClient uploadClient := by
  refine .tail (.single (.wake _ ?_)) (.turn ?_ ?_)
  · simp [newClient, Machine.ofSlot, connectionInit]
  · simp [newClient, Machine.ofSlot, connectionInit, Machine.wake]
  · intro now hnow
    obtain rfl := List.mem_singleton.mp hnow
    decide

theorem connection_bounds_upload :
    uploadClient.conn.phase = .readingBodyChunked ∧ uploadClient.conn.Bounded ∧
      uploadClient.conn.bodyStart ≤ uploadClient.conn.mem.reqBuf.size ∧
      uploadClient.conn.Stands uploadClient.conn.phase ∧ AssertsHold uploadClient.io.log ∧
      uploadClient.Unwrapped := by
  have hphase : uploadClient.conn.phase = .readingBodyChunked := by decide +kernel
  have hrouter : Router.AllocatesScratch ({} : Router Unit) := fun route hmem => by cases hmem
  have h := connection_bounds {} hrouter {} 4096 5 (by decide) { handlers := () } uploadClient
    uploadClient_reaches
  exact ⟨hphase, h.1, h.2.1 (.inr (.inr (.inl hphase))), h.2.2⟩

end HttpServer
