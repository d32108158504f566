import HttpServer.ConnectionBounds
import HttpServer.ContentFreshness
import HttpServer.StreamedSources

/-!
# The order of the bytes on the wire

What a connection has come up with for its client is kept in books: the interim
responses, the texts of the final ones, the frames of what has been pulled. At every
moment the bytes that the socket has accepted and the bytes that the connection still
holds make up all of it, in this order.
-/

namespace HttpServer

variable {σ : Type*} {router : Router σ} {m m' : Machine σ} {conn : Connection} {o : SendOutcome}
  {log : List Event} {rest interim : Bytes}

/-! ## The books -/

/-- What entering a phase adds to what the client is to get. -/
def interimText (pre post : ConnPhase) : Bytes :=
  if pre = .readingRequest ∧ post = .sending100 then CONTINUE_100 else []

def Event.produces : Event → Bytes
  | .staged _ _ text => text.getD []
  | .pulled _ (.data []) => LAST_CHUNK
  | .pulled _ (.data payload) => frameText payload
  | .step pre post => interimText pre.phase post.phase
  | _ => []

/-- Everything that the client is to get according to a log. -/
def produced (log : List Event) : Bytes := log.flatMap Event.produces

@[simp] theorem produced_nil : produced [] = [] := rfl

@[simp] theorem produced_append (log log' : List Event) :
    produced (log ++ log') = produced log ++ produced log' := List.flatMap_append

@[simp] theorem produced_singleton (e : Event) : produced [e] = e.produces := by
  simp [produced]

/-- What a response that is being streamed from `buf` still has to send of it. -/
def SendStreamSt.owed (st : SendStreamSt) (buf : Bytes) : Bytes :=
  match st.phase with
  | .pull | .done => []
  | _ => buf.drop st.send.sent

/-- What a connection in a phase still has to send. -/
def Connection.owed (conn : Connection) : ConnPhase → Bytes
  | .sending100 => CONTINUE_100.drop conn.st.getSend.sent
  | .sendingResponse => conn.mem.respBuf.contents.drop conn.st.getSend.sent
  | .sendingResponseStream => conn.st.getStream.owed conn.mem.respBuf.contents
  | _ => []

/-- An answer that ends a connection in the middle of a response. -/
def Event.cuts : Event → Bool
  | .send _ .peerClosed | .send _ .error | .pulled _ .error => true
  | _ => false

/-- With `rest` to come, all that has been produced is out. -/
def Owes (log : List Event) (rest : Bytes) : Prop := accepted log ++ rest = produced log

theorem Owes.quiet {evs : List Event} (h : Owes log rest) (haccepted : accepted evs = [])
    (hproduced : produced evs = []) : Owes (log ++ evs) rest := by
  unfold Owes
  rw [accepted_append, produced_append, haccepted, hproduced, List.append_nil, List.append_nil]
  exact h

theorem Owes.assert {io : Io} (h : Owes io.log rest) (b : Bool) : Owes (io.assert b).log rest := by
  unfold Io.assert
  split
  · exact h
  · exact h.quiet rfl rfl

theorem Owes.recvs (h : Owes log rest) (outs : List RecvOutcome) :
    Owes (log ++ outs.map Event.recv) rest := by
  refine h.quiet ?_ ?_ <;>
    exact List.flatMap_eq_nil_iff.mpr fun e he => by
      obtain ⟨out, -, rfl⟩ := List.mem_map.mp he
      rfl

/-- New bytes for a client that has everything so far. -/
theorem Owes.produce {e : Event} (h : Owes log []) (hsent : e.sentBytes = []) :
    Owes (log ++ [e]) e.produces := by
  unfold Owes at h ⊢
  rw [accepted_append, produced_append, accepted_cons, hsent, accepted_nil, produced_singleton,
    ← h, List.append_nil, List.append_nil]

/-- A call of `send` moves bytes from one side to the other. -/
theorem Owes.send {buf : Bytes} {st : SendSt} (h : Owes log (buf.drop st.sent)) (o : SendOutcome) :
    Owes (log ++ [.send (buf.drop st.sent) o]) (buf.drop (st.advance o).sent) := by
  have hmoved : (Event.send (buf.drop st.sent) o).sentBytes ++ buf.drop (st.advance o).sent =
      buf.drop st.sent := by
    cases o with
    | accepted n =>
      show (buf.drop st.sent).take n ++ buf.drop (st.sent + n) = buf.drop st.sent
      rw [← List.drop_drop, List.take_append_drop]
    | _ => rfl
  unfold Owes at h ⊢
  rw [accepted_append, produced_append, accepted_cons, accepted_nil, List.append_nil,
    List.append_assoc, hmoved, produced_singleton, h]
  exact (List.append_nil _).symm

/-- Nothing is left behind a call that is answered by `OK`. -/
theorem SendOutcome.drained {buf : Bytes} {size : ℕ} {st : SendSt} (hlen : buf.length ≤ size)
    (h : o.status size st.sent = .ok) : buf.drop (st.advance o).sent = [] := by
  cases o with
  | accepted n =>
    have hall : st.sent + n = size := by
      by_contra hpart
      rw [SendOutcome.status, if_neg hpart] at h
      cases h
    exact List.drop_eq_nil_of_le (hlen.trans hall.ge)
  | _ => cases h

/-- A call that ends a response before its end has failed. -/
theorem SendOutcome.cuts {size sent : ℕ} (offered : Bytes)
    (h : o.status size sent = .peerClosed ∨ o.status size sent = .error) :
    (Event.send offered o).cuts = true := by
  cases o with
  | accepted n =>
    simp only [SendOutcome.status] at h
    split at h <;> simp at h
  | again => simp [SendOutcome.status] at h
  | interrupted => simp [SendOutcome.status] at h
  | peerClosed => rfl
  | error => rfl

theorem HttpBuffer.length_contents_le (b : HttpBuffer) : b.contents.length ≤ b.size :=
  List.length_take_le _ _

/-! ## What a step keeps -/

/-- The books of a step that returns `r`, where `interim` is entered with its end. Only behind a
failed call some bytes are lost. The bytes of a response that is sent from `resp_buf` alone are all
there, and none is out. -/
structure Balanced (r : ConnPhase × Machine σ) (interim : Bytes) : Prop where
  books : ∃ rest, accepted r.2.io.log ++ rest = produced r.2.io.log ++ interim ∧
    (rest = r.2.conn.owed r.1 ∨ r.1 = .closed ∧ ∃ e ∈ r.2.io.log, e.cuts = true)
  unsent : r.1 = .sendingResponse → r.2.conn.st.getSend.sent = 0 ∧
    r.2.conn.mem.respBuf.contents.length = r.2.conn.mem.respBuf.size

theorem Balanced.of_owes {phase : ConnPhase} (h : Owes m.io.log (m.conn.owed phase))
    (hphase : phase ≠ .sendingResponse) : Balanced (phase, m) [] where
  books := ⟨_, by rw [List.append_nil]; exact h, .inl rfl⟩
  unsent hsends := absurd hsends hphase

theorem Balanced.of_cut {e : Event} (h : Owes m.io.log rest) (hmem : e ∈ m.io.log)
    (hcuts : e.cuts = true) : Balanced (.closed, m) [] where
  books := ⟨rest, by rw [List.append_nil]; exact h, .inr ⟨rfl, e, hmem, hcuts⟩⟩
  unsent hsends := nomatch hsends

theorem Balanced.owes {phase : ConnPhase} (h : Balanced (phase, m) []) (hopen : phase ≠ .closed) :
    Owes m.io.log (m.conn.owed phase) := by
  obtain ⟨rest, hbooks, hrest | ⟨hclosed, -⟩⟩ := h.books
  · rw [List.append_nil] at hbooks
    exact hrest ▸ hbooks
  · exact absurd hclosed hopen

/-- A response that has been serialized is all in the buffer. -/
theorem Owes.staged {resp : HttpBuffer} {keepAlive : Bool} {text : Option Bytes} (h : Owes log [])
    (hstaged : resp.Staged keepAlive text) (hfits : resp.size ≠ SIZE_MAX) (byError : Bool) :
    Owes (log ++ [.staged byError keepAlive text]) resp.contents ∧
      resp.contents.length = resp.size := by
  have hsize := hstaged.size
  cases text with
  | none => exact absurd hsize hfits
  | some text =>
    have hcontents := hstaged.contents text rfl
    rw [hcontents, hsize]
    exact ⟨h.produce rfl, rfl⟩

theorem Balanced.staged {byError keepAlive : Bool} {text : Option Bytes} (h : Owes log [])
    (hstaged : m.conn.mem.respBuf.Staged keepAlive text)
    (hfits : m.conn.mem.respBuf.size ≠ SIZE_MAX)
    (hlog : m.io.log = log ++ [.staged byError keepAlive text]) (hst : m.conn.st = .send {}) :
    Balanced (.sendingResponse, m) [] := by
  obtain ⟨howes, hlen⟩ := h.staged hstaged hfits byError
  have howed : m.conn.owed .sendingResponse = m.conn.mem.respBuf.contents := by
    simp only [Connection.owed]
    rw [hst]
    rfl
  refine ⟨⟨_, ?_, .inl rfl⟩, fun _ => ⟨?_, hlen⟩⟩
  · dsimp only
    rw [List.append_nil, howed, hlog]
    exact howes
  · rw [hst]
    rfl

/-! ## Reading -/

theorem connRecvHeader_owes (fd : ℤ) (b : HttpBuffer) (h : Owes m.io.log rest) :
    Owes (connRecvHeader fd b m.io).2.2.log rest := by
  have hloop : ∀ recvs log, Owes log rest → Owes (connRecvHeaderLoop recvs b log).2.2.2 rest := by
    intro recvs log h
    fun_induction connRecvHeaderLoop recvs b log <;>
      first
      | exact h
      | exact h.recvs [_]
      | next ih => exact ih (h.recvs [_])
  exact hloop _ _ (h.assert _)

theorem connRecvBodyCl_owes (fd : ℤ) (b : HttpBuffer) (bodyStart bodyLen : ℕ) (st : CLBodySt)
    (h : Owes m.io.log rest) :
    Owes (connRecvBodyCl fd b bodyStart bodyLen st m.io).2.2.2.log rest := by
  have hloop : ∀ recvs log, Owes log rest →
      Owes (connRecvBodyClLoop bodyStart bodyLen recvs b st log).2.2.2.2 rest := by
    intro recvs log h
    fun_induction connRecvBodyClLoop bodyStart bodyLen recvs b st log <;>
      first
      | exact h
      | exact h.recvs [_]
      | next ih => exact ih (h.recvs [_])
  exact hloop _ _ (h.assert _)

theorem connRecvBodyChunked_owes (fd : ℤ) (bodyStart : ℕ) (r : ChunkedRead)
    (h : Owes m.io.log rest) : Owes (connRecvBodyChunked fd bodyStart r m.io).2.2.log rest := by
  have hloop : ∀ recvs log, Owes log rest →
      Owes (connRecvBodyChunkedLoop bodyStart recvs r log).2.2.2 rest := by
    intro recvs log h
    fun_induction connRecvBodyChunkedLoop bodyStart recvs r log <;>
      first
      | exact h
      | exact h.recvs [_]
      | next ih => exact ih (h.recvs [_])
  exact hloop _ _ (h.assert _)

theorem Machine.errorBegin_balanced (status : ParseStatus) (h : Owes m.io.log [])
    (hfits : (m.errorBegin status).2.conn.mem.respBuf.size ≠ SIZE_MAX) :
    Balanced (m.errorBegin status) [] := by
  obtain ⟨resp, text, hstaged, hconn, hlog⟩ := m.errorBegin_spec status
  have hresp : (m.errorBegin status).2.conn.mem.respBuf = resp :=
    congrArg (fun conn : Connection => conn.mem.respBuf) hconn
  exact .staged h (hresp ▸ hstaged.toStaged) hfits hlog rfl

theorem Machine.bodyDispatch_balanced (h : Owes m.io.log []) : Balanced m.bodyDispatch [] := by
  have howes := h.assert (phaseBodyDispatchAsserts m.conn)
  unfold Machine.bodyDispatch phaseBodyDispatch Machine.assert
  dsimp only
  split
  · exact .of_owes howes (by simp)
  · split
    · exact .of_owes howes (by simp)
    · exact .of_owes howes (by simp)

theorem interimText_of_ne {pre post : ConnPhase} (h : pre ≠ .readingRequest ∨ post ≠ .sending100) :
    interimText pre post = [] := if_neg (not_and_or.mpr h)

theorem Machine.errorBegin_interim (pre : ConnPhase) (status : ParseStatus) :
    interimText pre (m.errorBegin status).1 = [] :=
  interimText_of_ne (.inr (by simp [errorBegin, phaseSendBegin]))

theorem Machine.bodyDispatch_interim (pre : ConnPhase) :
    interimText pre m.bodyDispatch.1 = [] := by
  refine interimText_of_ne (.inr ?_)
  unfold bodyDispatch phaseBodyDispatch
  dsimp only
  split
  · simp
  · split <;> simp

theorem stepHeaderRead_balanced (h : Owes m.io.log [])
    (hfits : (stepHeaderRead m).2.conn.mem.respBuf.size ≠ SIZE_MAX) :
    Balanced (stepHeaderRead m) (interimText .readingRequest (stepHeaderRead m).1) := by
  have hread := connRecvHeader_owes m.conn.fd m.conn.mem.reqBuf h
  unfold stepHeaderRead at hfits ⊢
  generalize connRecvHeader m.conn.fd m.conn.mem.reqBuf m.io = result at hread hfits ⊢
  obtain ⟨⟨status, total, bodyStart⟩, buf, io⟩ := result
  dsimp only at hread hfits ⊢
  cases status with
  | hasMore => exact .of_owes hread (by simp)
  | peerClosed => exact .of_owes hread (by simp)
  | ioError => exact .of_owes hread (by simp)
  | tooLarge =>
    dsimp only at hfits ⊢
    rw [Machine.errorBegin_interim]
    exact Machine.errorBegin_balanced _ hread hfits
  | ok =>
    dsimp only at hfits ⊢
    have hasserted : Owes (Machine.assert { m with conn.mem.reqBuf := buf, io := io }
        (decide (bodyStart ≤ total))).io.log [] := hread.assert _
    generalize Machine.assert { m with conn.mem.reqBuf := buf, io := io } _ = m₁ at *
    generalize headAccept m₁.conn bodyStart = accepted at hfits ⊢
    obtain ⟨verdict, conn⟩ := accepted
    cases verdict with
    | error status =>
      dsimp only at hfits ⊢
      rw [Machine.errorBegin_interim]
      exact Machine.errorBegin_balanced _ hasserted hfits
    | send100 =>
      refine ⟨⟨CONTINUE_100, ?_, .inl rfl⟩, fun hsends => nomatch hsends⟩
      show accepted m₁.io.log ++ CONTINUE_100 = produced m₁.io.log ++ CONTINUE_100
      rw [← hasserted, List.append_nil]
    | dispatch =>
      dsimp only
      rw [Machine.bodyDispatch_interim]
      exact Machine.bodyDispatch_balanced hasserted

theorem stepBodyClRead_balanced (h : Owes m.io.log [])
    (hfits : (stepBodyClRead m).2.conn.mem.respBuf.size ≠ SIZE_MAX) :
    Balanced (stepBodyClRead m) [] := by
  have hread := connRecvBodyCl_owes m.conn.fd m.conn.mem.reqBuf m.conn.bodyStart m.conn.bodyLen
    m.conn.st.getCl h
  unfold stepBodyClRead at hfits ⊢
  generalize connRecvBodyCl m.conn.fd _ _ _ _ m.io = result at hread hfits ⊢
  obtain ⟨⟨status, next⟩, buf, st, io⟩ := result
  cases status with
  | ok => exact .of_owes hread (by simp)
  | hasMore => exact .of_owes hread (by simp)
  | _ => exact Machine.errorBegin_balanced _ hread hfits

theorem stepBodyChunkedRead_balanced (h : Owes m.io.log [])
    (hfits : (stepBodyChunkedRead m).2.conn.mem.respBuf.size ≠ SIZE_MAX) :
    Balanced (stepBodyChunkedRead m) [] := by
  have hread := connRecvBodyChunked_owes m.conn.fd m.conn.bodyStart
    ⟨m.conn.mem.reqBuf, m.conn.mem.bodyDechunked, m.conn.st.getChunked⟩ h
  unfold stepBodyChunkedRead at hfits ⊢
  generalize connRecvBodyChunked m.conn.fd _ _ m.io = result at hread hfits ⊢
  obtain ⟨⟨status, next⟩, r, io⟩ := result
  cases status with
  | ok => exact .of_owes hread (by simp)
  | hasMore => exact .of_owes hread (by simp)
  | _ => exact Machine.errorBegin_balanced _ hread hfits

/-! ## Sending -/

theorem Owes.sent {io : Io} {buf : Bytes} {st : SendSt} (h : Owes io.log (buf.drop st.sent))
    (fd : ℤ) (resp : HttpBuffer) (o : SendOutcome) :
    Owes ((io.sendAsserted fd resp st).log ++ [.send (buf.drop st.sent) o])
      (buf.drop (st.advance o).sent) := by
  have hasserted : Owes (io.sendAsserted fd resp st).log (buf.drop st.sent) := h.assert _
  exact hasserted.send o

theorem stepSend100_balanced
    (h : Owes m.io.log (CONTINUE_100.drop m.conn.st.getSend.sent)) :
    Balanced (stepSend100 m) [] := by
  simp only [stepSend100, responseSend_eq]
  generalize m.io.nextSend _ = o
  have howes : Owes m.io.log (continue100Buf.contents.drop m.conn.st.getSend.sent) := h
  have hsent := howes.sent m.conn.fd continue100Buf o
  cases hst : o.status continue100Buf.size m.conn.st.getSend.sent with
  | hasMore => exact .of_owes hsent (by simp)
  | ok =>
    rw [SendOutcome.drained continue100Buf.length_contents_le hst] at hsent
    exact Machine.bodyDispatch_balanced hsent
  | peerClosed =>
    exact .of_cut hsent (List.mem_append_right _ (List.mem_singleton_self _))
      (SendOutcome.cuts _ (.inl hst))
  | error =>
    exact .of_cut hsent (List.mem_append_right _ (List.mem_singleton_self _))
      (SendOutcome.cuts _ (.inr hst))

theorem responseComplete_balanced (h : Owes m.io.log []) :
    Balanced ((responseComplete conn).1, { m with conn := (responseComplete conn).2 }) [] := by
  rw [responseComplete_fst]
  split
  · exact .of_owes h (by simp)
  · exact .of_owes h (by simp)

/-- A call of `send` for a response that is sent from `resp_buf` alone takes all of it or
nothing. -/
def Machine.TakesWhole (m : Machine σ) : Prop :=
  m.conn.phase = .sendingResponse →
    ∀ n, m.io.nextSend m.conn.mem.respBuf.contents.length = .accepted n →
      n = 0 ∨ n = m.conn.mem.respBuf.contents.length

theorem stepResponseSend_balanced (hphase : m.conn.phase = .sendingResponse)
    (hwhole : m.TakesWhole) (h : Balanced (m.conn.phase, m) []) :
    Balanced (stepResponseSend m) [] := by
  rw [hphase] at h
  have howes := h.owes (by simp)
  obtain ⟨hstart, hlen⟩ := h.unsent rfl
  dsimp only at hstart hlen
  have hanswer := hwhole hphase
  have hfirst : m.conn.mem.respBuf.contents.drop m.conn.st.getSend.sent =
      m.conn.mem.respBuf.contents := by rw [hstart, List.drop_zero]
  rw [stepResponseSend_eq]
  have hsent := Owes.sent howes m.conn.fd m.conn.mem.respBuf
    (m.io.nextSend (m.conn.mem.respBuf.contents.drop m.conn.st.getSend.sent).length)
  unfold Machine.sent
  dsimp only
  rw [hfirst] at hsent ⊢
  generalize m.io.nextSend _ = o at hanswer hsent ⊢
  cases hst : o.status m.conn.mem.respBuf.size m.conn.st.getSend.sent with
  | hasMore =>
    -- the cursor is forgotten, but it has not moved
    have hnone : (m.conn.st.getSend.advance o).sent = 0 := by
      cases o with
      | accepted n =>
        rcases hanswer n rfl with rfl | rfl
        · exact hstart
        · rw [SendOutcome.status, if_pos (by omega)] at hst
          cases hst
      | _ => exact hstart
    rw [hnone] at hsent
    refine ⟨⟨_, ?_, .inl rfl⟩, fun _ => ⟨rfl, hlen⟩⟩
    rw [List.append_nil]
    exact hsent
  | ok =>
    rw [SendOutcome.drained m.conn.mem.respBuf.length_contents_le hst] at hsent
    exact responseComplete_balanced hsent
  | peerClosed =>
    exact .of_cut hsent (List.mem_append_right _ (List.mem_singleton_self _))
      (SendOutcome.cuts _ (.inl hst))
  | error =>
    exact .of_cut hsent (List.mem_append_right _ (List.mem_singleton_self _))
      (SendOutcome.cuts _ (.inr hst))

/-! ## Building -/

theorem responseDispatch_owes (router : Router σ) (h : Owes m.io.log rest) :
    Owes (responseDispatch router m).2.io.log rest := by
  obtain ⟨scratch, world, evs, -, hhandled, heq⟩ := responseDispatch_dispatched router m
  rw [heq]
  refine h.quiet ?_ ?_ <;>
    exact List.flatMap_eq_nil_iff.mpr fun e he => by
      obtain ⟨method, path, req, rfl⟩ := hhandled e he
      rfl

theorem streamRelease_owes (h : Owes m.io.log rest) : Owes (streamRelease m).io.log rest := by
  unfold streamRelease
  split
  · exact h.quiet rfl rfl
  · exact h

/-- A response that has just been serialized is staged. -/
theorem Machine.serialize_staged (m : Machine σ) (res : HttpResponse) (b : Bool) :
    ∃ text, (((m.serialize res).2.assert b).staged (m.serialize res).1).conn.mem.respBuf.Staged
        m.conn.keepAlive text ∧
      (((m.serialize res).2.assert b).staged (m.serialize res).1).io.log =
        (m.io.assert b).log ++ [.staged false m.conn.keepAlive text] := by
  obtain ⟨now, hout, hconn, hlog⟩ := m.serialize_spec res
  have hstaged := m.conn.mem.respBuf.stage_staged res m.conn.keepAlive m.conn.mem.respBuf.cap now
  rw [← hout] at hstaged
  refine ⟨_, hstaged, ?_⟩
  have hassert : ((m.serialize res).2.io.assert b).log = (m.io.assert b).log := by
    unfold Io.assert
    split
    · exact hlog
    · exact congrArg (· ++ [Event.assertFailed]) hlog
  simp only [Machine.staged, Machine.assert, Io.emit, hassert]
  rfl

theorem buildBuffered_balanced (res : HttpResponse) (h : Owes m.io.log [])
    (hfits : (buildBuffered res m).2.conn.mem.respBuf.size ≠ SIZE_MAX) :
    Balanced (buildBuffered res m) [] := by
  have hstages : ∀ (m : Machine σ) res b, Owes m.io.log [] →
      (((m.serialize res).2.assert b).staged (m.serialize res).1).conn.mem.respBuf.size ≠
        SIZE_MAX →
      Balanced (.sendingResponse,
        { ((m.serialize res).2.assert b).staged (m.serialize res).1 with
          conn := (phaseSendBegin (requestConsume
            (((m.serialize res).2.assert b).staged (m.serialize res).1).conn)).2 }) [] := by
    intro m res b h hfits
    obtain ⟨text, hstaged, hlog⟩ := m.serialize_staged res b
    exact .staged (h.assert b) hstaged hfits hlog rfl
  have hserialized : ∀ res, Owes (m.serialize res).2.io.log [] := by
    intro res
    obtain ⟨now, -, -, hlog⟩ := m.serialize_spec res
    exact hlog ▸ h
  unfold buildBuffered at hfits ⊢
  dsimp only at hfits ⊢
  generalize (if m.conn.reqParsed.requestLine.method = .head then { res with headOnly := true }
    else res) = res' at hfits ⊢
  split at hfits
  · next hfailed =>
    rw [if_pos hfailed]
    exact hstages _ _ _ (hserialized res') hfits
  · next hok =>
    rw [if_neg hok]
    exact hstages _ _ _ h hfits

theorem responseBuild_balanced (res : HttpResponse) (h : Owes m.io.log [])
    (hfits : (responseBuild res m).2.conn.mem.respBuf.size ≠ SIZE_MAX) :
    Balanced (responseBuild res m) [] := by
  unfold responseBuild at hfits ⊢
  cases hbody : res.body with
  | none =>
    simp only [hbody] at hfits
    exact buildBuffered_balanced res h hfits
  | buffer body size =>
    simp only [hbody] at hfits
    exact buildBuffered_balanced res h hfits
  | stream stream =>
    simp only [hbody] at hfits ⊢
    split at hfits
    · next hfailed =>
      rw [if_pos hfailed]
      obtain ⟨now, -, -, hlog⟩ := Machine.serialize_spec { m with conn.producer := stream } res
      have hserialized :
          Owes (Machine.serialize { m with conn.producer := stream } res).2.io.log [] := hlog ▸ h
      exact buildBuffered_balanced _ (streamRelease_owes hserialized) hfits
    · next hok =>
      rw [if_neg hok]
      obtain ⟨text, hstaged, hlog⟩ :=
        Machine.serialize_staged { m with conn.producer := stream } res true
      obtain ⟨howes, -⟩ := h.staged hstaged hfits false
      exact .of_owes (hlog ▸ howes) (by simp)

/-! ## Streaming -/

theorem streamAbort_balanced {e : Event} (h : Owes m.io.log rest) (hmem : e ∈ m.io.log)
    (hcuts : e.cuts = true) : Balanced (ConnPhase.closed, (streamAbort m).2) [] := by
  refine .of_cut (m := (streamAbort m).2) (streamRelease_owes h) ?_ hcuts
  show e ∈ (streamRelease m).io.log
  unfold streamRelease
  split
  · exact List.mem_append_left _ hmem
  · exact hmem

theorem SendStreamSt.owed_of_sends (st : SendStreamSt) (h : st.phase.Sends) (buf : Bytes) :
    st.owed buf = buf.drop st.send.sent := by
  unfold owed
  cases hphase : st.phase with
  | pull => exact absurd hphase h.1
  | done => exact absurd hphase h.2
  | _ => rfl

theorem SendStreamSt.owed_of_rests (st : SendStreamSt) (h : ¬ st.phase.Sends) (buf : Bytes) :
    st.owed buf = [] := by
  unfold owed
  cases hphase : st.phase with
  | pull => rfl
  | done => rfl
  | _ => exact absurd ⟨by simp [hphase], by simp [hphase]⟩ h

/-- What is accepted in a turn that calls `send` is taken from what is owed. -/
theorem streamSent_owes (h : Owes m.io.log (m.conn.owed .sendingResponseStream))
    {next : StreamPhase} (hnext : m.conn.streamNext = some next) (st : SendStreamSt) :
    Owes (m.streamSent st).io.log (m.conn.mem.respBuf.contents.drop
      (m.conn.st.getStream.send.advance m.streamAnswer).sent) := by
  have howed : m.conn.owed .sendingResponseStream = m.streamOffer :=
    SendStreamSt.owed_of_sends _ (Connection.sends_of_streamNext hnext).1 _
  rw [howed] at h
  exact h.sent m.conn.fd m.conn.mem.respBuf m.streamAnswer

theorem streamCall_mem (m : Machine σ) (st : SendStreamSt) :
    m.streamCall ∈ (m.streamSent st).io.log :=
  List.mem_append_right _ (List.mem_singleton_self _)

/-- Every frame fits, so that only a producer that fails ends a stream. -/
theorem chunkFrame_fits {payload : Bytes} (hlen : payload.length ≤ HTTP_STREAM_CHUNK_SIZE) :
    chunkFrame payload HTTP_RESPONSE_BUFFER_SIZE = some (frameText payload) := by
  have hbuf : HTTP_STREAM_CHUNK_SIZE + 20 ≤ HTTP_RESPONSE_BUFFER_SIZE := by decide
  have hhex := showHex_length (hlen.trans_lt (by decide : HTTP_STREAM_CHUNK_SIZE < 2 ^ 64))
  have hsize : (showHex payload.length ++ CRLF).length ≤ 18 := by
    rw [List.length_append, CRLF_length]
    omega
  unfold chunkFrame
  dsimp only
  rw [if_neg (by omega), if_neg (by omega), List.append_assoc _ payload]
  rfl

theorem streamFrame_fits {payload : Bytes} (ctx : Option StreamCtx)
    (hlen : payload.length ≤ HTTP_STREAM_CHUNK_SIZE) :
    streamFrame HTTP_RESPONSE_BUFFER_SIZE payload =
      some (Event.produces (.pulled ctx (.data payload))) := by
  cases payload with
  | nil => rfl
  | cons c payload => exact chunkFrame_fits hlen

theorem afterPull_owes (h : Owes m.io.log (m.conn.owed .sendingResponseStream))
    (hphase : m.conn.st.getStream.phase = .pull) :
    Owes m.afterPull.io.log m.pullCall.produces := by
  have hnone : m.conn.owed .sendingResponseStream = [] :=
    SendStreamSt.owed_of_rests _ (by simp [hphase, StreamPhase.Sends]) _
  rw [afterPull_log]
  exact Owes.produce (hnone ▸ h) rfl

/-- What the loop keeps. -/
structure StreamBalanced (m : Machine σ) : Prop where
  bounded : StreamBounded m
  owes : Owes m.io.log (m.conn.owed .sendingResponseStream)

theorem LoopTurn.keepsBalanced (hturn : LoopTurn m (none, m')) (h : StreamBalanced m) :
    StreamBalanced m' := by
  refine ⟨hturn.keepsBounded h.bounded, ?_⟩
  cases hturn with
  | @sent next hnext hstatus =>
    have hsent := streamSent_owes h.owes hnext { phase := next, send := { sent := 0 } }
    rw [SendOutcome.drained m.conn.mem.respBuf.length_contents_le hstatus] at hsent
    have howed : (m.streamSent { phase := next, send := { sent := 0 } }).conn.owed
        .sendingResponseStream = [] :=
      SendStreamSt.owed_of_rests { phase := next, send := { sent := 0 } }
        (Connection.sends_of_streamNext hnext).2 _
    rw [howed]
    exact hsent
  | @framed payload frame hphase hpull hframe =>
    have howes := afterPull_owes h.owes hphase
    rw [h.bounded.bounded.response.sized,
      streamFrame_fits m.conn.producer.ctx (length_streamPulled hpull)] at hframe
    rw [Machine.pullCall, hpull, Option.some.inj hframe] at howes
    have howed : (m.afterPull.streamFramed frame (framePhase payload)).conn.owed
        .sendingResponseStream = frame :=
      (SendStreamSt.owed_of_sends _ (framePhase_sends payload) _).trans
        (m.conn.mem.respBuf.contents_stage frame)
    rw [howed]
    exact howes

theorem LoopTurn.endsBalanced {phase : ConnPhase} (hturn : LoopTurn m (some phase, m'))
    (h : StreamBalanced m) : Balanced (phase, m') [] := by
  cases hturn with
  | blocked hnext hstatus =>
    have howed : (m.streamSent m.streamStays).conn.owed .sendingResponseStream =
        m.conn.mem.respBuf.contents.drop (m.conn.st.getStream.send.advance m.streamAnswer).sent :=
      SendStreamSt.owed_of_sends m.streamStays (Connection.sends_of_streamNext hnext).1 _
    exact .of_owes (howed ▸ streamSent_owes h.owes hnext m.streamStays) (by simp)
  | failed hnext hstatus =>
    exact streamAbort_balanced (streamSent_owes h.owes hnext m.streamStays)
      (streamCall_mem m m.streamStays) (SendOutcome.cuts _ hstatus)
  | gaveUp hphase hcause =>
    have hmem : m.pullCall ∈ m.afterPull.io.log := by
      rw [afterPull_log]
      exact List.mem_append_right _ (List.mem_singleton_self _)
    refine streamAbort_balanced (afterPull_owes h.owes hphase) hmem ?_
    -- a frame always fits, so that only a producer that fails ends the response
    cases hpull : m.streamPulled with
    | error =>
      rw [Machine.pullCall, hpull]
      rfl
    | data payload =>
      have hframe := hcause payload hpull
      rw [h.bounded.bounded.response.sized,
        streamFrame_fits m.conn.producer.ctx (length_streamPulled hpull)] at hframe
      cases hframe
  | done hphase =>
    have hnone : m.conn.owed .sendingResponseStream = [] :=
      SendStreamSt.owed_of_rests _ (by simp [hphase, StreamPhase.Sends]) _
    exact responseComplete_balanced (streamRelease_owes (hnone ▸ h.owes))

theorem stepResponseSendStream_balanced (h : StreamBalanced m) :
    Balanced (stepResponseSendStream m) [] :=
  stepResponseSendStream_rule StreamBalanced (fun phase m => Balanced (phase, m) [])
    (fun _ _ hm hturn => hturn.keepsBalanced hm) (fun _ _ _ hm hturn => hturn.endsBalanced hm) h

/-! ## Runs -/

theorem stepConn_balanced (router : Router σ) (hopen : m.conn.phase ≠ .closed)
    (hbounded : StepBounded (m.conn.phase, m)) (hwhole : m.TakesWhole)
    (h : Balanced (m.conn.phase, m) [])
    (hfits : (stepConn router m).2.conn.mem.respBuf.size ≠ SIZE_MAX) :
    Balanced (stepConn router m) (interimText m.conn.phase (stepConn router m).1) := by
  have howes := h.owes hopen
  by_cases hreads : m.conn.phase = .readingRequest
  · rw [hreads] at howes ⊢
    simp only [stepConn, hreads] at hfits ⊢
    exact stepHeaderRead_balanced howes hfits
  rw [interimText_of_ne (.inl hreads)]
  unfold stepConn at hfits ⊢
  cases hphase : m.conn.phase <;> rw [hphase] at howes hfits
  case readingRequest => exact absurd hphase hreads
  case sending100 => exact stepSend100_balanced howes
  case readingBodyCl => exact stepBodyClRead_balanced howes hfits
  case readingBodyChunked => exact stepBodyChunkedRead_balanced howes hfits
  case building =>
    exact responseBuild_balanced (responseDispatch router m).1 (responseDispatch_owes router howes)
      hfits
  case sendingResponse => exact stepResponseSend_balanced hphase hwhole h
  case sendingResponseStream =>
    have hstands := hbounded.stands
    dsimp only at hstands
    rw [hphase] at hstands
    exact stepResponseSendStream_balanced
      ⟨⟨hbounded.bounded, hstands, hbounded.asserts⟩, howes⟩
  case closed => exact absurd hphase hopen

/-- A wake-up in which the clock does not fail and a buffered response is taken whole or not at
all. -/
structure Machine.Orderly (m : Machine σ) : Prop where
  timely : m.io.Timely
  whole : m.TakesWhole

theorem stepPhase_balanced (hopen : m.conn.phase ≠ .closed)
    (hbounded : StepBounded (m.conn.phase, m)) (hwhole : m.TakesWhole)
    (h : Balanced (m.conn.phase, m) [])
    (hfits : (stepConn router m).2.conn.mem.respBuf.size ≠ SIZE_MAX) :
    Balanced ((stepPhase router m).conn.phase, stepPhase router m) [] := by
  have hstep := stepConn_balanced router hopen hbounded hwhole h hfits
  obtain ⟨⟨rest, hbooks, hrest⟩, hunsent⟩ := hstep
  refine ⟨⟨rest, ?_, hrest.imp_right ?_⟩, hunsent⟩
  · rw [stepPhase_log, accepted_append, produced_append, produced_singleton, List.append_nil]
    show accepted _ ++ [] ++ rest = _ ++ interimText m.conn.phase (stepConn router m).1
    rw [List.append_nil]
    exact hbooks
  · rintro ⟨hclosed, e, hmem, hcuts⟩
    exact ⟨hclosed, e, List.mem_append_left _ hmem, hcuts⟩

theorem Reaches.mono {allowed allowed' : Machine σ → Prop} (h : Reaches router allowed m m')
    (hallowed : ∀ m, allowed m → allowed' m) : Reaches router allowed' m m' := by
  refine Relation.ReflTransGen.mono (fun a b hnext => ?_) _ _ h
  cases hnext with
  | wake w hopen => exact .wake w hopen
  | turn hopen hok => exact .turn hopen (hallowed a hok)

theorem Reaches.balanced (hrouter : router.AllocatesScratch)
    (h : Reaches router Machine.Orderly m m') (hwf : m.conn.WellFormed)
    (hm : StepBounded (m.conn.phase, m)) (hbalanced : Balanced (m.conn.phase, m) []) :
    Balanced (m'.conn.phase, m') [] := by
  refine Runs.invariant (fun m => Balanced (m.conn.phase, m) []) h hbalanced
    fun a b hreaches ha hnext => ?_
  cases hnext with
  | wake w => exact ⟨ha.books, ha.unsent⟩
  | turn hopen horderly =>
    have htimely : Reaches router (fun m => m.io.Timely) m a :=
      Reaches.mono hreaches fun m hm => hm.timely
    have hbounded := htimely.bounded hrouter hwf hm
    have hresponse := (stepConn_bounded hrouter hbounded.bounded (htimely.wellFormed hwf)
      hbounded.stands hbounded.asserts horderly.timely).bounded.response
    have hcap : HTTP_RESPONSE_BUFFER_SIZE < SIZE_MAX := by decide
    exact stepPhase_balanced hopen hbounded horderly.whole ha
      (ne_of_lt ((hresponse.filled.trans_eq hresponse.sized).trans_lt hcap))

/-- What a client has got at any moment is the beginning of what has been produced for it, byte for
byte, and the connection holds all that is missing, unless it has been closed behind a failed
call. -/
theorem wire_order (router : Router σ) (hrouter : router.AllocatesScratch) (slot : Connection)
    (backing : ℕ) (newFd : ℤ) (hfd : 0 < newFd) (world : World σ) (m : Machine σ)
    (hreaches : Reaches router Machine.Orderly
      (.ofSlot slot backing HTTP_CONN_ARENA_SIZE newFd world) m) :
    accepted m.io.log <+: produced m.io.log ∧
      (accepted m.io.log ++ m.conn.owed m.conn.phase = produced m.io.log ∨
        m.conn.phase = .closed ∧ ∃ e ∈ m.io.log, e.cuts = true) := by
  have hstart : Balanced (ConnPhase.readingRequest,
      Machine.ofSlot slot backing HTTP_CONN_ARENA_SIZE newFd world) [] := .of_owes rfl (by simp)
  obtain ⟨⟨rest, hbooks, hrest⟩, -⟩ := hreaches.balanced hrouter
    (Machine.ofSlot_wellFormed slot backing HTTP_CONN_ARENA_SIZE newFd world)
    (Machine.ofSlot_bounded slot backing hfd world) hstart
  dsimp only at hbooks hrest
  rw [List.append_nil] at hbooks
  refine ⟨⟨rest, hbooks⟩, ?_⟩
  rcases hrest with rfl | hcut
  · exact .inl hbooks
  · exact .inr hcut

theorem numbersRouter_allocates : numbersRouter.AllocatesScratch := by
  intro route hmem req scratch handlers
  obtain rfl := List.mem_singleton.mp hmem
  exact .refl scratch

theorem numbersSent_orderly : Reaches numbersRouter Machine.Orderly newClient numbersSent := by
  have horderly : ∀ m : Machine Unit, m.io.clock = [] → m.conn.phase ≠ .sendingResponse →
      m.Orderly := by
    intro m hclock hphase
    refine ⟨fun now hnow => ?_, fun hsends => absurd hsends hphase⟩
    rw [hclock] at hnow
    cases hnow
  have hclient : Reaches numbersRouter Machine.Orderly newClient numbersClient :=
    .tail (.single (.wake _ (by decide +kernel)))
      (.turn (by decide +kernel) (horderly _ rfl (by decide +kernel)))
  have hbuilt := hclient.tail
    (.turn (by decide +kernel) (horderly _ (by decide +kernel) (by decide +kernel)))
  exact .tail (.tail hbuilt (.wake _ (by decide +kernel)))
    (.turn (by decide +kernel) (horderly _ rfl (by decide +kernel)))

theorem wire_order_numbers : accepted numbersSent.io.log = produced numbersSent.io.log := by
  have hphase : numbersSent.conn.phase = .readingRequest := by decide +kernel
  obtain ⟨-, hwhole | ⟨hclosed, -⟩⟩ := wire_order numbersRouter numbersRouter_allocates {} 4096 5
    (by decide) { handlers := () } numbersSent numbersSent_orderly
  · rw [hphase] at hwhole
    exact (List.append_nil _).symm.trans hwhole
  · rw [hphase] at hclosed
    cases hclosed

end HttpServer
