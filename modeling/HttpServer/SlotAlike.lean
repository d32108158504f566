import HttpServer.BodyExactness
import HttpServer.SerializedSize

/-!
# Connections that read alike

Two buffers that have the same live bytes, whatever lies behind them, and two logs
that differ only in the connections recorded in their steps. Reading, sending and
serializing cannot tell them apart.
-/

namespace HttpServer

variable {b₁ b₂ : HttpBuffer} {io₁ io₂ : Io} {log₁ log₂ : List Event}

/-! ## Logs and scripts -/

/-- What an event tells the outside: of a step, the phases. -/
def Event.outward : Event → Event
  | .step pre post => .step { phase := pre.phase } { phase := post.phase }
  | e => e

def LogAlike (log₁ log₂ : List Event) : Prop := log₁.map Event.outward = log₂.map Event.outward

theorem LogAlike.append (h : LogAlike log₁ log₂) {evs₁ evs₂ : List Event}
    (hevs : LogAlike evs₁ evs₂) : LogAlike (log₁ ++ evs₁) (log₂ ++ evs₂) := by
  unfold LogAlike at *
  rw [List.map_append, List.map_append, h, hevs]

theorem LogAlike.snoc (h : LogAlike log₁ log₂) (e : Event) : LogAlike (log₁ ++ [e]) (log₂ ++ [e]) :=
  h.append rfl

/-- The scripts are the same, and the clock does not fail. -/
structure Io.Alike (io₁ io₂ : Io) : Prop where
  recvs : io₁.recvs = io₂.recvs
  sends : io₁.sends = io₂.sends
  pulls : io₁.pulls = io₂.pulls
  clock : io₁.clock = io₂.clock
  log : LogAlike io₁.log io₂.log
  timely : io₁.Timely

theorem Io.Alike.emit (h : io₁.Alike io₂) (e : Event) : (io₁.emit e).Alike (io₂.emit e) :=
  { h with log := h.log.snoc e }

theorem Io.Alike.assert (h : io₁.Alike io₂) (b : Bool) : (io₁.assert b).Alike (io₂.assert b) := by
  unfold Io.assert
  split
  · exact h
  · exact h.emit .assertFailed

theorem Io.Alike.time (h : io₁.Alike io₂) :
    io₁.time.1 = io₂.time.1 ∧ io₁.time.2.Alike io₂.time.2 := by
  have htimely := h.timely.time.2
  unfold Io.time at htimely ⊢
  rw [← h.clock]
  cases hclock : io₁.clock with
  | nil => exact ⟨rfl, h⟩
  | cons now rest =>
    rw [hclock] at htimely
    exact ⟨rfl, { h with clock := rfl, timely := htimely }⟩

theorem Io.Alike.send (h : io₁.Alike io₂) (offered : Bytes) :
    (io₁.send offered).1 = (io₂.send offered).1 ∧
      (io₁.send offered).2.Alike (io₂.send offered).2 := by
  unfold Io.send
  rw [← h.sends]
  cases io₁.sends with
  | nil => exact ⟨rfl, h.emit _⟩
  | cons o rest => exact ⟨rfl, { h with sends := rfl, log := h.log.snoc _ }⟩

theorem Io.Alike.pull (h : io₁.Alike io₂) (ctx : Option StreamCtx) (cap : ℕ) :
    (io₁.pull ctx cap).1 = (io₂.pull ctx cap).1 ∧
      (io₁.pull ctx cap).2.Alike (io₂.pull ctx cap).2 := by
  unfold Io.pull
  rw [← h.pulls]
  cases io₁.pulls with
  | nil => exact ⟨rfl, h.emit _⟩
  | cons o rest => exact ⟨rfl, { h with pulls := rfl, log := h.log.snoc _ }⟩

/-! ## Buffers -/

/-- The live bytes are the same, and the memory is. -/
structure HttpBuffer.Alike (b₁ b₂ : HttpBuffer) : Prop where
  address : b₁.address = b₂.address
  cap : b₁.cap = b₂.cap
  size : b₁.size = b₂.size
  contents : b₁.contents = b₂.contents

theorem HttpBuffer.Alike.append (h : b₁.Alike b₂) (h₁ : b₁.Backed) (h₂ : b₂.Backed) (bs : Bytes) :
    (b₁.append bs).Alike (b₂.append bs) where
  address := h.address
  cap := h.cap
  size := congrArg (· + bs.length) h.size
  contents := by rw [h₁.contents_append, h₂.contents_append, h.contents]

/-- A response that fits leaves nothing of what was there. -/
theorem HttpBuffer.stage_alike (haddress : b₁.address = b₂.address) (hcap : b₁.cap = b₂.cap)
    {res : HttpResponse} {cap : ℕ} {keepAlive : Bool} {now : ℤ}
    (hok : (responseSerialize res cap keepAlive now).failed = false) :
    (b₁.stage (responseSerialize res cap keepAlive now)).Alike
      (b₂.stage (responseSerialize res cap keepAlive now)) := by
  obtain ⟨text, htext⟩ : ∃ text, (responseSerialize res cap keepAlive now).result = some text :=
    ⟨_, by rw [Out.result, hok]; rfl⟩
  have hcontents : ∀ b : HttpBuffer,
      (b.stage (responseSerialize res cap keepAlive now)).contents = text := fun b =>
    (b.stage_staged res keepAlive cap now).contents text htext
  exact ⟨haddress, hcap, rfl, by rw [hcontents, hcontents]⟩

/-! ## Readers -/

/-- What two calls of a reader return besides the result, which is to be the same. -/
structure ReadAlike {ρ : Type*} (res₁ res₂ : ρ) (b₁ b₂ : HttpBuffer)
    (r₁ r₂ : List RecvOutcome × List Event) : Prop where
  result : res₁ = res₂
  buffer : b₁.Alike b₂
  recvs : r₁.1 = r₂.1
  log : LogAlike r₁.2 r₂.2

theorem connRecvHeaderLoop_alike (recvs : List RecvOutcome) (h : b₁.Alike b₂) (h₁ : b₁.Backed)
    (h₂ : b₂.Backed) (hlog : LogAlike log₁ log₂) :
    ReadAlike (connRecvHeaderLoop recvs b₁ log₁).1 (connRecvHeaderLoop recvs b₂ log₂).1
      (connRecvHeaderLoop recvs b₁ log₁).2.1 (connRecvHeaderLoop recvs b₂ log₂).2.1
      (connRecvHeaderLoop recvs b₁ log₁).2.2 (connRecvHeaderLoop recvs b₂ log₂).2.2 := by
  induction recvs generalizing b₁ b₂ log₁ log₂ with
  | nil =>
    unfold connRecvHeaderLoop
    rw [h.contents, h.size, h.cap]
    cases memmem b₂.contents HEADER_END with
    | some terminator => exact ⟨rfl, h, rfl, hlog⟩
    | none =>
      dsimp only
      split
      · exact ⟨rfl, h, rfl, hlog⟩
      · exact ⟨rfl, h, rfl, hlog.snoc _⟩
  | cons o rest ih =>
    unfold connRecvHeaderLoop
    rw [h.contents, h.size, h.cap]
    cases memmem b₂.contents HEADER_END with
    | some terminator => exact ⟨rfl, h, rfl, hlog⟩
    | none =>
      dsimp only
      split
      · exact ⟨rfl, h, rfl, hlog⟩
      · have hlog' := hlog.snoc (.recv (o.clip (b₂.cap - b₂.size)))
        generalize o.clip (b₂.cap - b₂.size) = o at hlog' ⊢
        cases o with
        | again => exact ⟨rfl, h, rfl, hlog'⟩
        | interrupted => exact ih h h₁ h₂ hlog'
        | error => exact ⟨rfl, h, rfl, hlog'⟩
        | data got =>
          cases got with
          | nil => exact ⟨rfl, h, rfl, hlog'⟩
          | cons c got => exact ih (h.append h₁ h₂ _) (h₁.append _) (h₂.append _) hlog'

theorem connRecvHeader_alike (fd : ℤ) (h : b₁.Alike b₂) (h₁ : b₁.Backed) (h₂ : b₂.Backed)
    (hio : io₁.Alike io₂) :
    (connRecvHeader fd b₁ io₁).1 = (connRecvHeader fd b₂ io₂).1 ∧
      (connRecvHeader fd b₁ io₁).2.1.Alike (connRecvHeader fd b₂ io₂).2.1 ∧
      (connRecvHeader fd b₁ io₁).2.2.Alike (connRecvHeader fd b₂ io₂).2.2 := by
  have hasserted := hio.assert (b₂.address.isSome && decide (0 ≤ fd))
  have hread := connRecvHeaderLoop_alike (io₂.assert (b₂.address.isSome && decide (0 ≤ fd))).recvs
    h h₁ h₂ hasserted.log
  unfold connRecvHeader
  rw [h.address]
  dsimp only
  rw [hasserted.recvs]
  exact ⟨hread.result, hread.buffer, { hasserted with recvs := hread.recvs, log := hread.log }⟩

theorem connRecvBodyClLoop_alike (bodyStart bodyLen : ℕ) (recvs : List RecvOutcome) (st : CLBodySt)
    (h : b₁.Alike b₂) (h₁ : b₁.Backed) (h₂ : b₂.Backed) (hlog : LogAlike log₁ log₂) :
    ReadAlike
      ((connRecvBodyClLoop bodyStart bodyLen recvs b₁ st log₁).1,
        (connRecvBodyClLoop bodyStart bodyLen recvs b₁ st log₁).2.2.1)
      ((connRecvBodyClLoop bodyStart bodyLen recvs b₂ st log₂).1,
        (connRecvBodyClLoop bodyStart bodyLen recvs b₂ st log₂).2.2.1)
      (connRecvBodyClLoop bodyStart bodyLen recvs b₁ st log₁).2.1
      (connRecvBodyClLoop bodyStart bodyLen recvs b₂ st log₂).2.1
      (connRecvBodyClLoop bodyStart bodyLen recvs b₁ st log₁).2.2.2
      (connRecvBodyClLoop bodyStart bodyLen recvs b₂ st log₂).2.2.2 := by
  induction recvs generalizing b₁ b₂ log₁ log₂ st with
  | nil =>
    unfold connRecvBodyClLoop
    rw [h.size, h.cap]
    split
    · exact ⟨rfl, h, rfl, hlog⟩
    · split
      · exact ⟨rfl, h, rfl, hlog⟩
      · exact ⟨rfl, h, rfl, hlog.snoc _⟩
  | cons o rest ih =>
    unfold connRecvBodyClLoop
    rw [h.size, h.cap]
    split
    · exact ⟨rfl, h, rfl, hlog⟩
    · split
      · exact ⟨rfl, h, rfl, hlog⟩
      · have hlog' := hlog.snoc (.recv (o.clip (b₂.cap - b₂.size)))
        dsimp only
        generalize o.clip (b₂.cap - b₂.size) = o at hlog' ⊢
        cases o with
        | again => exact ⟨rfl, h, rfl, hlog'⟩
        | interrupted => exact ih st h h₁ h₂ hlog'
        | error => exact ⟨rfl, h, rfl, hlog'⟩
        | data got =>
          cases got with
          | nil => exact ⟨rfl, h, rfl, hlog'⟩
          | cons c got => exact ih _ (h.append h₁ h₂ _) (h₁.append _) (h₂.append _) hlog'

theorem connRecvBodyCl_alike (fd : ℤ) (bodyStart bodyLen : ℕ) (st : CLBodySt) (h : b₁.Alike b₂)
    (h₁ : b₁.Backed) (h₂ : b₂.Backed) (hio : io₁.Alike io₂) :
    ∃ res st' b₁' b₂' io₁' io₂',
      connRecvBodyCl fd b₁ bodyStart bodyLen st io₁ = (res, b₁', st', io₁') ∧
      connRecvBodyCl fd b₂ bodyStart bodyLen st io₂ = (res, b₂', st', io₂') ∧
      b₁'.Alike b₂' ∧ io₁'.Alike io₂' := by
  have hasserted := hio.assert (b₂.address.isSome && decide (0 ≤ fd))
  have hread := connRecvBodyClLoop_alike bodyStart bodyLen
    (io₂.assert (b₂.address.isSome && decide (0 ≤ fd))).recvs st h h₁ h₂ hasserted.log
  unfold connRecvBodyCl
  rw [h.address]
  dsimp only
  obtain ⟨hres, hst⟩ := Prod.mk.inj hread.result
  rw [hasserted.recvs, hres, hst]
  exact ⟨_, _, _, _, _, _, rfl, rfl, hread.buffer,
    { hasserted with recvs := hread.recvs, log := hread.log }⟩

theorem chunkDrain_alike (bodyStart fuel : ℕ) (st : ChunkedBodySt) (h : b₁.Alike b₂)
    {d₁ d₂ : HttpBuffer} (hd : d₁.Alike d₂) (hd₁ : d₁.Backed) (hd₂ : d₂.Backed) :
    (chunkDrain b₁ bodyStart fuel d₁ st).1 = (chunkDrain b₂ bodyStart fuel d₂ st).1 ∧
      (chunkDrain b₁ bodyStart fuel d₁ st).2.1.Alike (chunkDrain b₂ bodyStart fuel d₂ st).2.1 ∧
      (chunkDrain b₁ bodyStart fuel d₁ st).2.2 = (chunkDrain b₂ bodyStart fuel d₂ st).2.2 ∧
      (chunkDrain b₁ bodyStart fuel d₁ st).2.1.Backed ∧
      (chunkDrain b₂ bodyStart fuel d₂ st).2.1.Backed := by
  induction fuel generalizing d₁ d₂ st with
  | zero => exact ⟨rfl, hd, rfl, hd₁, hd₂⟩
  | succ fuel ih =>
    unfold chunkDrain
    rw [h.contents, hd.cap, hd.size]
    dsimp only
    generalize chunkAdvance st.dec (b₂.contents.drop (bodyStart + st.consumed))
      (d₂.cap - d₂.size) = advanced
    obtain ⟨cr, dec, written⟩ := advanced
    have happend := hd.append hd₁ hd₂ written
    have hback₁ := hd₁.append written
    have hback₂ := hd₂.append written
    dsimp only
    split
    · exact ⟨rfl, happend, rfl, hback₁, hback₂⟩
    · split
      · exact ⟨rfl, happend, rfl, hback₁, hback₂⟩
      · split
        · exact ⟨rfl, happend, rfl, hback₁, hback₂⟩
        · split
          · exact ⟨rfl, happend, rfl, hback₁, hback₂⟩
          · exact ih _ happend hback₁ hback₂

/-- What `conn_recv_body_chunked` works on reads alike. -/
structure ChunkedRead.Alike (r₁ r₂ : ChunkedRead) : Prop where
  reqBuf : r₁.reqBuf.Alike r₂.reqBuf
  dechunked : r₁.dechunked.Alike r₂.dechunked
  st : r₁.st = r₂.st
  reqBuf_backed : r₁.reqBuf.Backed ∧ r₂.reqBuf.Backed
  dechunked_backed : r₁.dechunked.Backed ∧ r₂.dechunked.Backed

theorem ChunkedRead.Alike.received {r₁ r₂ : ChunkedRead} (h : r₁.Alike r₂) (got : Bytes) :
    ({ r₁ with reqBuf := r₁.reqBuf.append got } : ChunkedRead).Alike
      { r₂ with reqBuf := r₂.reqBuf.append got } :=
  { h with
    reqBuf := h.reqBuf.append h.reqBuf_backed.1 h.reqBuf_backed.2 got
    reqBuf_backed := ⟨h.reqBuf_backed.1.append got, h.reqBuf_backed.2.append got⟩ }

theorem ChunkedRead.Alike.drain {r₁ r₂ : ChunkedRead} (h : r₁.Alike r₂) (bodyStart fuel : ℕ) :
    ∃ res d₁ d₂ st, chunkDrain r₁.reqBuf bodyStart fuel r₁.dechunked r₁.st = (res, d₁, st) ∧
      chunkDrain r₂.reqBuf bodyStart fuel r₂.dechunked r₂.st = (res, d₂, st) ∧
      ({ r₁ with dechunked := d₁, st := st } : ChunkedRead).Alike
        { r₂ with dechunked := d₂, st := st } := by
  have hdrained := chunkDrain_alike bodyStart fuel r₂.st h.reqBuf h.dechunked
    h.dechunked_backed.1 h.dechunked_backed.2
  rw [h.st]
  generalize chunkDrain r₁.reqBuf bodyStart fuel r₁.dechunked r₂.st = drained₁ at hdrained ⊢
  generalize chunkDrain r₂.reqBuf bodyStart fuel r₂.dechunked r₂.st = drained₂ at hdrained ⊢
  obtain ⟨res, d₁, st⟩ := drained₁
  obtain ⟨res₂, d₂, st₂⟩ := drained₂
  obtain ⟨rfl, hd, rfl, hd₁, hd₂⟩ := hdrained
  exact ⟨res, d₁, d₂, st, rfl, rfl,
    { h with dechunked := hd, st := rfl, dechunked_backed := ⟨hd₁, hd₂⟩ }⟩

theorem connRecvBodyChunkedLoop_alike (bodyStart : ℕ) (recvs : List RecvOutcome)
    {r₁ r₂ : ChunkedRead} (h : r₁.Alike r₂) (hlog : LogAlike log₁ log₂) :
    (connRecvBodyChunkedLoop bodyStart recvs r₁ log₁).1 =
        (connRecvBodyChunkedLoop bodyStart recvs r₂ log₂).1 ∧
      (connRecvBodyChunkedLoop bodyStart recvs r₁ log₁).2.1.Alike
        (connRecvBodyChunkedLoop bodyStart recvs r₂ log₂).2.1 ∧
      (connRecvBodyChunkedLoop bodyStart recvs r₁ log₁).2.2.1 =
        (connRecvBodyChunkedLoop bodyStart recvs r₂ log₂).2.2.1 ∧
      LogAlike (connRecvBodyChunkedLoop bodyStart recvs r₁ log₁).2.2.2
        (connRecvBodyChunkedLoop bodyStart recvs r₂ log₂).2.2.2 := by
  induction recvs generalizing r₁ r₂ log₁ log₂ with
  | nil =>
    obtain ⟨res, d₁, d₂, st, hdrain₁, hdrain₂, hnext⟩ := h.drain bodyStart (r₂.reqBuf.size + 2)
    unfold connRecvBodyChunkedLoop
    rw [h.reqBuf.size, hdrain₁, hdrain₂]
    cases res with
    | some res => exact ⟨rfl, hnext, rfl, hlog⟩
    | none =>
      dsimp only
      rw [h.reqBuf.size, h.reqBuf.cap]
      split
      · exact ⟨rfl, hnext, rfl, hlog⟩
      · exact ⟨rfl, hnext, rfl, hlog.snoc _⟩
  | cons o rest ih =>
    obtain ⟨res, d₁, d₂, st, hdrain₁, hdrain₂, hnext⟩ := h.drain bodyStart (r₂.reqBuf.size + 2)
    unfold connRecvBodyChunkedLoop
    rw [h.reqBuf.size, hdrain₁, hdrain₂]
    cases res with
    | some res => exact ⟨rfl, hnext, rfl, hlog⟩
    | none =>
      dsimp only
      rw [h.reqBuf.size, h.reqBuf.cap]
      split
      · exact ⟨rfl, hnext, rfl, hlog⟩
      · have hlog' := hlog.snoc (.recv (o.clip (r₂.reqBuf.cap - r₂.reqBuf.size)))
        generalize o.clip (r₂.reqBuf.cap - r₂.reqBuf.size) = o at hlog' ⊢
        cases o with
        | again => exact ⟨rfl, hnext, rfl, hlog'⟩
        | interrupted => exact ih hnext hlog'
        | error => exact ⟨rfl, hnext, rfl, hlog'⟩
        | data got =>
          cases got with
          | nil => exact ⟨rfl, hnext, rfl, hlog'⟩
          | cons c got => exact ih (hnext.received _) hlog'

theorem connRecvBodyChunked_alike (fd : ℤ) (bodyStart : ℕ) {r₁ r₂ : ChunkedRead} (h : r₁.Alike r₂)
    (hio : io₁.Alike io₂) :
    ∃ res r₁' r₂' io₁' io₂', connRecvBodyChunked fd bodyStart r₁ io₁ = (res, r₁', io₁') ∧
      connRecvBodyChunked fd bodyStart r₂ io₂ = (res, r₂', io₂') ∧
      r₁'.Alike r₂' ∧ io₁'.Alike io₂' := by
  unfold connRecvBodyChunked
  rw [h.reqBuf.address, h.dechunked.address, h.reqBuf.size, h.st]
  have hasserted := hio.assert (decide (0 < fd) && r₂.reqBuf.address.isSome &&
    r₂.dechunked.address.isSome && decide (bodyStart + r₂.st.consumed ≤ r₂.reqBuf.size))
  generalize io₁.assert _ = io₁ at hasserted ⊢
  generalize io₂.assert _ = io₂ at hasserted ⊢
  obtain ⟨hres, hread, hrecvs, hlog⟩ := connRecvBodyChunkedLoop_alike bodyStart io₂.recvs h
    hasserted.log
  dsimp only
  rw [hasserted.recvs, hres]
  exact ⟨_, _, _, _, _, rfl, rfl, hread,
    { hasserted with recvs := hrecvs, log := hlog }⟩

/-! ## Sending and serializing -/

/-- A send from buffers that read alike comes back with the same verdict and progress. -/
theorem responseSend_alike (fd : ℤ) (st : SendSt) (h : b₁.Alike b₂) (hio : io₁.Alike io₂) :
    ∃ status st' io₁' io₂', responseSend fd b₁ st io₁ = (status, st', io₁') ∧
      responseSend fd b₂ st io₂ = (status, st', io₂') ∧ io₁'.Alike io₂' := by
  unfold responseSend
  rw [h.address, h.size, h.contents]
  have hasserted := hio.assert (b₂.address.isSome && decide (0 ≤ fd) && decide (st.sent < b₂.size))
  obtain ⟨hout, hsent⟩ := hasserted.send (b₂.contents.drop st.sent)
  dsimp only
  generalize (io₁.assert _).send _ = sent₁ at hout hsent ⊢
  generalize (io₂.assert _).send _ = sent₂ at hout hsent ⊢
  obtain ⟨o₁, io₁'⟩ := sent₁
  obtain ⟨o₂, io₂'⟩ := sent₂
  obtain rfl : o₁ = o₂ := hout
  cases o₁ <;> exact ⟨_, _, io₁', io₂', rfl, rfl, hsent⟩

/-- Serializing does not look into the buffer, and reads a clock that does not fail. -/
theorem responseSerializeNow_alike (res : HttpResponse) (cap : ℕ) (keepAlive : Bool)
    (hio : io₁.Alike io₂) :
    ∃ now, TimeReading now ∧
      (responseSerializeNow res cap keepAlive io₁).1 = responseSerialize res cap keepAlive now ∧
      (responseSerializeNow res cap keepAlive io₂).1 = responseSerialize res cap keepAlive now ∧
      (responseSerializeNow res cap keepAlive io₁).2.Alike
        (responseSerializeNow res cap keepAlive io₂).2 := by
  obtain ⟨hnow, htime⟩ := hio.time
  have hreading := hio.timely.time.1
  unfold responseSerializeNow
  split
  · exact ⟨io₁.time.1, hreading, rfl, by rw [hnow], htime⟩
  · exact ⟨0, by decide, rfl, rfl, hio⟩

theorem responseErrorSerialize_alike (status : ParseStatus) (haddress : b₁.address = b₂.address)
    (hcap : b₁.cap = b₂.cap) (hfits : b₁.cap = HTTP_RESPONSE_BUFFER_SIZE) (hio : io₁.Alike io₂) :
    (responseErrorSerialize b₁ status io₁).1.Alike (responseErrorSerialize b₂ status io₂).1 ∧
      (responseErrorSerialize b₁ status io₁).2.Alike (responseErrorSerialize b₂ status io₂).2 := by
  obtain ⟨now, hnow, hout₁, hout₂, hserialized⟩ :=
    responseSerializeNow_alike (responseErrorFromStatus status) b₁.cap false hio
  unfold responseErrorSerialize
  rw [← hcap]
  dsimp only
  rw [hout₁, hout₂, hfits]
  refine ⟨HttpBuffer.stage_alike haddress hcap (responseErrorFromStatus_fits status false hnow), ?_⟩
  rw [hfits] at hserialized
  exact hserialized.emit _

end HttpServer
