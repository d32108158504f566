import HttpServer.StreamTurns

/-!
# Sending a streamed response

What the loop of `step_response_send_stream` has done when it returns: it has
touched `resp_buf`, its own state and the producer, and called `send` and nothing
else of the socket. It ends because a `send` blocked, because it gave up, or
because the response is out.
-/

namespace HttpServer

variable {σ : Type*} {conn conn' : Connection} {evs : List Event} {m : Machine σ}

/-- What the stream loop may change of a connection. -/
def Connection.StreamedTo (conn conn' : Connection) : Prop :=
  ∃ resp st producer, conn' =
    { conn with mem.respBuf := resp, st := st, producer := producer }

theorem Connection.StreamedTo.refl (conn : Connection) : conn.StreamedTo conn :=
  ⟨_, _, _, rfl⟩

theorem Connection.StreamedTo.trans {conn'' : Connection} (h : conn.StreamedTo conn')
    (h' : conn'.StreamedTo conn'') : conn.StreamedTo conn'' := by
  obtain ⟨resp, st, producer, rfl⟩ := h
  obtain ⟨resp', st', producer', rfl⟩ := h'
  exact ⟨resp', st', producer', rfl⟩

/-- A call after which its caller waits for the socket. -/
inductive Event.Blocked : Event → Prop where
  | recv : Blocked (.recv .again)
  | send {offered o size sent} (h : SendOutcome.status size sent o = .hasMore) :
      Blocked (.send offered o)

def Event.IsSend (e : Event) : Prop := ∃ offered o, e = .send offered o

/-- How the stream loop ends after the calls `evs`. -/
inductive StreamEnd (conn : Connection) (evs : List Event) : ConnPhase → Connection → Prop where
  | waits {post e} (h : conn.StreamedTo post) (hlast : evs.getLast? = some e)
      (hblocked : e.Blocked) : StreamEnd conn evs .sendingResponseStream post
  | closes {post} (h : conn.StreamedTo post) : StreamEnd conn evs .closed post
  | done {sent} (h : conn.StreamedTo sent) :
      StreamEnd conn evs (responseComplete sent).1 (responseComplete sent).2

/-- A turn before the calls `evs`. -/
theorem StreamEnd.before {evs₀ : List Event} {phase : ConnPhase} {conn'' : Connection}
    (h : StreamEnd conn' evs phase conn'') (h₀ : conn.StreamedTo conn') :
    StreamEnd conn (evs₀ ++ evs) phase conn'' := by
  cases h with
  | waits h hlast hblocked =>
    refine .waits (h₀.trans h) ?_ hblocked
    rw [List.getLast?_append, hlast]
    rfl
  | closes h => exact .closes (h₀.trans h)
  | done h => exact .done (h₀.trans h)

/-- `m'` is `m` after the calls `evs` of `send`, which may have changed what the stream loop may
change. -/
structure Machine.Streamed (m m' : Machine σ) (evs : List Event) : Prop where
  conn : m.conn.StreamedTo m'.conn
  sends : ∀ e ∈ evs, e.IsSend
  log : visible m'.io.log = visible m.io.log ++ evs

theorem Machine.Streamed.trans {m' m'' : Machine σ} {evs' : List Event} (h : m.Streamed m' evs)
    (h' : m'.Streamed m'' evs') : m.Streamed m'' (evs ++ evs') where
  conn := h.conn.trans h'.conn
  sends e he := (List.mem_append.mp he).elim (h.sends e) (h'.sends e)
  log := by rw [h'.log, h.log, List.append_assoc]

theorem streamRelease_streamed (m : Machine σ) : m.Streamed (streamRelease m) [] where
  conn := by
    unfold streamRelease
    split <;> exact ⟨_, _, _, rfl⟩
  sends := by simp
  log := by
    unfold streamRelease
    split <;> simp [Io.emit, visible, Event.visible]

theorem streamAbort_streamed (m : Machine σ) : m.Streamed (streamAbort m).2 [] where
  conn := (streamRelease_streamed m).conn.trans ⟨_, _, _, rfl⟩
  sends := by simp
  log := (streamRelease_streamed m).log

theorem streamSent_streamed (m : Machine σ) (st : SendStreamSt) :
    m.Streamed (m.streamSent st) [m.streamCall] where
  conn := ⟨_, _, _, rfl⟩
  sends := by simp [Machine.streamCall, Event.IsSend]
  log := by
    show visible ((m.io.sendAsserted _ _ _).log ++ _) = _
    rw [visible_append, Io.sendAsserted, visible_assert]
    rfl

theorem afterPull_streamed (m : Machine σ) : m.Streamed m.afterPull [] where
  conn := .refl _
  sends := by simp
  log := by
    rw [afterPull_log, visible_append]
    rfl

theorem streamFramed_streamed (m : Machine σ) (frame : Bytes) (phase : StreamPhase) :
    m.Streamed (m.streamFramed frame phase) [] where
  conn := ⟨_, _, _, rfl⟩
  sends := by simp
  log := (List.append_nil _).symm

/-- The loop goes on. -/
theorem LoopTurn.streamed (h : LoopTurn m (none, m')) : ∃ evs, m.Streamed m' evs := by
  cases h with
  | sent => exact ⟨_, streamSent_streamed m _⟩
  | framed =>
    exact ⟨_, (afterPull_streamed m).trans (streamFramed_streamed _ _ _)⟩

/-- The loop has returned `phase`, with the machine `m'`. -/
def StreamReturns (m : Machine σ) (phase : ConnPhase) (m' : Machine σ) : Prop :=
  ∃ evs, (∀ e ∈ evs, e.IsSend) ∧ visible m'.io.log = visible m.io.log ++ evs ∧
    StreamEnd m.conn evs phase m'.conn

theorem StreamReturns.before {phase : ConnPhase} {m'' : Machine σ}
    (h : StreamReturns m' phase m'') (h₀ : m.Streamed m' evs) : StreamReturns m phase m'' := by
  obtain ⟨evs', hsends, hlog, hend⟩ := h
  exact ⟨evs ++ evs', fun e he => (List.mem_append.mp he).elim (h₀.sends e) (hsends e),
    by rw [hlog, h₀.log, List.append_assoc], hend.before h₀.conn⟩

theorem streamAbort_returns (m : Machine σ) : StreamReturns m .closed (streamAbort m).2 :=
  ⟨[], by simp, (streamAbort_streamed m).log, .closes (streamAbort_streamed m).conn⟩

/-- The loop ends. -/
theorem LoopTurn.returns {phase : ConnPhase} (h : LoopTurn m (some phase, m')) :
    StreamReturns m phase m' := by
  cases h with
  | blocked _ hstatus =>
    have hsent := streamSent_streamed m m.streamStays
    exact ⟨_, hsent.sends, hsent.log, .waits hsent.conn rfl (.send hstatus)⟩
  | failed => exact (streamAbort_returns _).before (streamSent_streamed m _)
  | gaveUp => exact (streamAbort_returns _).before (afterPull_streamed m)
  | done =>
    have hrelease := streamRelease_streamed m
    exact ⟨[], by simp, hrelease.log, .done hrelease.conn⟩

theorem stepResponseSendStream_spec (m : Machine σ) :
    ∃ evs, (∀ e ∈ evs, e.IsSend) ∧
      visible (stepResponseSendStream m).2.io.log = visible m.io.log ++ evs ∧
      StreamEnd m.conn evs (stepResponseSendStream m).1 (stepResponseSendStream m).2.conn := by
  apply stepResponseSendStream_rule (fun m' => ∃ evs, m.Streamed m' evs) (StreamReturns m)
  · rintro a b ⟨evs, hstreamed⟩ hturn
    obtain ⟨evs', hstreamed'⟩ := hturn.streamed
    exact ⟨_, hstreamed.trans hstreamed'⟩
  · rintro a phase b ⟨evs, hstreamed⟩ hturn
    exact hturn.returns.before hstreamed
  · exact ⟨[], .refl _, by simp, (List.append_nil _).symm⟩

end HttpServer
