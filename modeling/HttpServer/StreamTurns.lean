import HttpServer.BufferedSend

/-!
# The turns of the stream loop

`LoopTurn` says once what one turn of the loop in `step_response_send_stream` can do to
the machine. What the loop keeps is proved of these turns, and `stepResponseSendStream_rule`
carries it to the end of the loop.
-/

namespace HttpServer

variable {σ : Type*} {conn : Connection} {m m' : Machine σ}

/-! ## The parts of a turn -/

/-- The phases of a stream in which `resp_buf` is sent. -/
def StreamPhase.Sends (phase : StreamPhase) : Prop := phase ≠ .pull ∧ phase ≠ .done

/-- Where a phase that sends `resp_buf` leads when all of it is out. -/
def Connection.streamNext (conn : Connection) : Option StreamPhase :=
  match conn.st.getStream.phase with
  | .header => some (if conn.reqParsed.requestLine.method = .head then .done else .pull)
  | .drain => some .pull
  | .trailer => some .done
  | .pull | .done => none

theorem Connection.sends_of_streamNext {next : StreamPhase} (h : conn.streamNext = some next) :
    conn.st.getStream.phase.Sends ∧ ¬ next.Sends := by
  unfold streamNext at h
  cases hphase : conn.st.getStream.phase <;> rw [hphase] at h <;> cases h
  case header =>
    refine ⟨⟨by simp, by simp⟩, ?_⟩
    split <;> simp [StreamPhase.Sends]
  case drain => exact ⟨⟨by simp, by simp⟩, by simp [StreamPhase.Sends]⟩
  case trailer => exact ⟨⟨by simp, by simp⟩, by simp [StreamPhase.Sends]⟩

/-- What `send` is offered in a turn that calls it. -/
def Machine.streamOffer (m : Machine σ) : Bytes :=
  m.conn.mem.respBuf.contents.drop m.conn.st.getStream.send.sent

def Machine.streamAnswer (m : Machine σ) : SendOutcome := m.io.nextSend m.streamOffer.length

def Machine.streamStatus (m : Machine σ) : SendResponseStatus :=
  m.streamAnswer.status m.conn.mem.respBuf.size m.conn.st.getStream.send.sent

/-- The call of `send`, as the log has it. -/
def Machine.streamCall (m : Machine σ) : Event := .send m.streamOffer m.streamAnswer

/-- The cursor has moved over what has been accepted, and the phase is still the same. -/
def Machine.streamStays (m : Machine σ) : SendStreamSt :=
  { m.conn.st.getStream with send := m.conn.st.getStream.send.advance m.streamAnswer }

/-- Behind the call of `send`, with `st` as the state of the loop. -/
def Machine.streamSent (m : Machine σ) (st : SendStreamSt) : Machine σ :=
  { m.sent m.conn.mem.respBuf m.conn.st.getStream.send with
    conn := { m.conn with st := .stream st } }

/-- What the producer answers in a turn that pulls. -/
def Machine.streamPulled (m : Machine σ) : PullOutcome :=
  (m.io.pull m.conn.producer.ctx HTTP_STREAM_CHUNK_SIZE).1

def Machine.pullCall (m : Machine σ) : Event := .pulled m.conn.producer.ctx m.streamPulled

def Machine.afterPull (m : Machine σ) : Machine σ :=
  { m with io := (m.io.pull m.conn.producer.ctx HTTP_STREAM_CHUNK_SIZE).2 }

theorem afterPull_log (m : Machine σ) : m.afterPull.io.log = m.io.log ++ [m.pullCall] := by
  unfold Machine.pullCall Machine.streamPulled Machine.afterPull Io.pull
  split <;> rfl

theorem afterPull_sends (m : Machine σ) : m.afterPull.io.sends = m.io.sends := by
  unfold Machine.afterPull Io.pull
  split <;> rfl

/-- A producer returns no more than it was asked for. -/
theorem length_streamPulled {payload : Bytes} (h : m.streamPulled = .data payload) :
    payload.length ≤ HTTP_STREAM_CHUNK_SIZE := by
  unfold Machine.streamPulled Io.pull at h
  cases hpulls : m.io.pulls with
  | nil =>
    rw [hpulls] at h
    obtain rfl := PullOutcome.data.inj h
    exact Nat.zero_le _
  | cons o rest =>
    rw [hpulls] at h
    cases o with
    | data given =>
      obtain rfl := PullOutcome.data.inj h
      exact List.length_take_le _ _
    | error => cases h

/-- What a pull is put into `resp_buf` as, and the phase that sends it. -/
def streamFrame (cap : ℕ) : Bytes → Option Bytes
  | [] => chunkFrameLast cap
  | c :: payload => chunkFrame (c :: payload) cap

def framePhase : Bytes → StreamPhase
  | [] => .trailer
  | _ :: _ => .drain

theorem framePhase_sends (payload : Bytes) : (framePhase payload).Sends := by
  cases payload <;> simp [framePhase, StreamPhase.Sends]

def Machine.streamFramed (m : Machine σ) (frame : Bytes) (phase : StreamPhase) : Machine σ :=
  { m with
    conn.mem.respBuf := { m.conn.mem.respBuf.store 0 frame with size := frame.length }
    conn.st := .stream { phase := phase, send := { sent := 0 } } }

/-! ## The turns -/

/-- One turn of the loop: the phase that it returns, if it returns, and the machine behind it. -/
inductive LoopTurn (m : Machine σ) : Option ConnPhase × Machine σ → Prop where
  | sent {next} (hnext : m.conn.streamNext = some next) (hstatus : m.streamStatus = .ok) :
      LoopTurn m (none, m.streamSent { phase := next, send := { sent := 0 } })
  | blocked {next} (hnext : m.conn.streamNext = some next) (hstatus : m.streamStatus = .hasMore) :
      LoopTurn m (some .sendingResponseStream, m.streamSent m.streamStays)
  | failed {next} (hnext : m.conn.streamNext = some next)
      (hstatus : m.streamStatus = .peerClosed ∨ m.streamStatus = .error) :
      LoopTurn m (some .closed, (streamAbort (m.streamSent m.streamStays)).2)
  | framed {payload frame} (hphase : m.conn.st.getStream.phase = .pull)
      (hpull : m.streamPulled = .data payload)
      (hframe : streamFrame m.conn.mem.respBuf.cap payload = some frame) :
      LoopTurn m (none, m.afterPull.streamFramed frame (framePhase payload))
  | gaveUp (hphase : m.conn.st.getStream.phase = .pull)
      (hcause : ∀ payload, m.streamPulled = .data payload →
        streamFrame m.conn.mem.respBuf.cap payload = none) :
      LoopTurn m (some .closed, (streamAbort m.afterPull).2)
  | done (hphase : m.conn.st.getStream.phase = .done) :
      LoopTurn m (some (responseComplete (streamRelease m).conn).1,
        { streamRelease m with conn := (responseComplete (streamRelease m).conn).2 })

/-- The `switch` of `stream_handle_response`. -/
def Machine.afterStreamSend (m : Machine σ) (next : StreamPhase) :
    SendResponseStatus → Option ConnPhase × Machine σ
  | .ok => (none, m.streamSent { phase := next, send := { sent := 0 } })
  | .hasMore => (some .sendingResponseStream, m.streamSent m.streamStays)
  | .peerClosed | .error => (some .closed, (streamAbort (m.streamSent m.streamStays)).2)

theorem streamSend_eq (next : StreamPhase) (m : Machine σ) :
    streamSend next m = m.afterStreamSend next m.streamStatus := by
  simp only [streamSend, responseSend_eq]
  unfold Machine.streamStatus Machine.streamAnswer Machine.streamOffer
  cases SendOutcome.status _ _ _ <;> rfl

theorem streamSend_loopTurn {next : StreamPhase} (hnext : m.conn.streamNext = some next) :
    LoopTurn m (streamSend next m) := by
  rw [streamSend_eq]
  cases hstatus : m.streamStatus with
  | ok => exact .sent hnext hstatus
  | hasMore => exact .blocked hnext hstatus
  | peerClosed => exact .failed hnext (.inl hstatus)
  | error => exact .failed hnext (.inr hstatus)

theorem streamPull_loopTurn (hphase : m.conn.st.getStream.phase = .pull) :
    LoopTurn m (streamPull m) := by
  have framed : ∀ payload, m.streamPulled = .data payload → LoopTurn m
      (streamStage (streamFrame m.conn.mem.respBuf.cap payload) (framePhase payload)
        m.afterPull) := by
    intro payload hpull
    cases hframe : streamFrame m.conn.mem.respBuf.cap payload with
    | none =>
      refine .gaveUp hphase fun payload' hpull' => ?_
      obtain rfl := PullOutcome.data.inj (hpull.symm.trans hpull')
      exact hframe
    | some frame => exact .framed hphase hpull hframe
  have hcall : m.io.pull m.conn.producer.ctx HTTP_STREAM_CHUNK_SIZE =
      (m.streamPulled, m.afterPull.io) := rfl
  rw [streamPull, hcall]
  dsimp only
  cases hpull : m.streamPulled with
  | error => exact .gaveUp hphase fun payload h => by rw [hpull] at h; cases h
  | data payload =>
    cases payload with
    | nil => exact framed [] hpull
    | cons c payload => exact framed (c :: payload) hpull

theorem streamTurn_loopTurn (m : Machine σ) : LoopTurn m (streamTurn m) := by
  cases hphase : m.conn.st.getStream.phase with
  | header =>
    simp only [streamTurn, hphase]
    exact streamSend_loopTurn (by simp only [Connection.streamNext, hphase])
  | pull =>
    simp only [streamTurn, hphase]
    exact streamPull_loopTurn hphase
  | drain =>
    simp only [streamTurn, hphase]
    exact streamSend_loopTurn (by simp only [Connection.streamNext, hphase])
  | trailer =>
    simp only [streamTurn, hphase]
    exact streamSend_loopTurn (by simp only [Connection.streamNext, hphase])
  | done =>
    simp only [streamTurn, hphase]
    exact .done hphase

/-! ## The loop -/

/-- The turns up to the end of the next call of `send`, if there is one. -/
def StreamPhase.turns : StreamPhase → ℕ
  | .pull => 2
  | _ => 1

theorem StreamPhase.turns_eq_one {phase : StreamPhase} (h : phase ≠ .pull) : phase.turns = 1 := by
  cases phase <;> first | rfl | exact absurd rfl h

theorem StreamPhase.turns_le (phase : StreamPhase) : phase.turns ≤ 2 := by
  cases phase <;> decide

def streamRank (m : Machine σ) : ℕ :=
  2 * m.io.sends.length + m.conn.st.getStream.phase.turns

/-- Only an answer from the script is accepted. -/
theorem Io.sends_ne_nil {io : Io} {size sent len : ℕ}
    (h : (io.nextSend len).status size sent = .ok) : io.sends ≠ [] := by
  intro hnil
  rw [Io.nextSend, hnil] at h
  cases h

/-- A turn that goes round the loop again has used up an answer of `send`, or has left the phase
that pulls. -/
theorem LoopTurn.rank (h : LoopTurn m (none, m')) : streamRank m' < streamRank m := by
  cases h with
  | @sent next hnext hstatus =>
    obtain ⟨hsends, -⟩ := Connection.sends_of_streamNext hnext
    have hpos := List.length_pos_iff.mpr (Io.sends_ne_nil hstatus)
    have htail : m.io.sends.tail.length = m.io.sends.length - 1 := List.length_tail
    have hturns := next.turns_le
    have hone := StreamPhase.turns_eq_one hsends.1
    show 2 * m.io.sends.tail.length + next.turns <
      2 * m.io.sends.length + m.conn.st.getStream.phase.turns
    omega
  | @framed payload frame hphase =>
    have hone := StreamPhase.turns_eq_one (framePhase_sends payload).1
    have hpull : StreamPhase.pull.turns = 2 := rfl
    show 2 * m.afterPull.io.sends.length + (framePhase payload).turns <
      2 * m.io.sends.length + m.conn.st.getStream.phase.turns
    rw [hphase, afterPull_sends]
    omega

section Rule

variable (inv : Machine σ → Prop) (post : ConnPhase → Machine σ → Prop)

/-- The loop ends before its fuel does. -/
theorem streamLoop_rule (hgoes : ∀ m m', inv m → LoopTurn m (none, m') → inv m')
    (hends : ∀ m phase m', inv m → LoopTurn m (some phase, m') → post phase m') {fuel : ℕ}
    (hfuel : streamRank m < fuel) (h : inv m) :
    post (streamLoop fuel m).1 (streamLoop fuel m).2 := by
  induction fuel generalizing m with
  | zero => exact absurd hfuel (Nat.not_lt_zero _)
  | succ fuel ih =>
    have hturn := streamTurn_loopTurn m
    unfold streamLoop
    generalize streamTurn m = r at hturn ⊢
    obtain ⟨_ | phase, m'⟩ := r
    · have hlower := hturn.rank
      exact ih (by omega) (hgoes m m' h hturn)
    · exact hends m phase m' h hturn

/-- What the turns that go round the loop keep, and what the turns that end it make of it. -/
theorem stepResponseSendStream_rule (hgoes : ∀ m m', inv m → LoopTurn m (none, m') → inv m')
    (hends : ∀ m phase m', inv m → LoopTurn m (some phase, m') → post phase m') (h : inv m) :
    post (stepResponseSendStream m).1 (stepResponseSendStream m).2 := by
  refine streamLoop_rule inv post hgoes hends ?_ h
  have hturns := m.conn.st.getStream.phase.turns_le
  unfold streamRank
  omega

/-- What every turn keeps, the loop keeps. -/
theorem stepResponseSendStream_keeps (hkeeps : ∀ m r, inv m → LoopTurn m r → inv r.2)
    (h : inv m) : inv (stepResponseSendStream m).2 :=
  stepResponseSendStream_rule inv (fun _ m => inv m) (fun m m' hm => hkeeps m (none, m') hm)
    (fun m phase m' hm => hkeeps m (some phase, m') hm) h

end Rule

end HttpServer
