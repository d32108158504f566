import HttpServer.ConnectionRuns

/-!
# What the poll loop waits for

When `connection_step_process` returns, the last call of `recv` or `send` has
blocked and `conn_phase_event` asks for the event that call waits for, except in
`CONN_SENDING_100`, for which it has no case.
-/

namespace HttpServer

variable {σ : Type*} {router : Router σ} {m m' : Machine σ} {pre post : Connection}
  {evs : List Event}

/-! ## The last call -/

def Event.isCall : Event → Bool
  | .recv _ | .send _ _ => true
  | _ => false

def Event.IsRecv (e : Event) : Prop := ∃ o, e = .recv o

/-- The last call of `recv` or `send`. -/
def lastCall (log : List Event) : Option Event := (log.filter Event.isCall).getLast?

theorem lastCall_visible (log : List Event) : lastCall (visible log) = lastCall log := by
  have hcall : ∀ e : Event, (e.isCall && e.visible) = e.isCall := by
    intro e
    cases e <;> rfl
  unfold lastCall visible
  rw [List.filter_filter]
  congr 2
  funext e
  exact hcall e

theorem lastCall_append_step {log : List Event} {call : Event} (hcall : call.isCall)
    (h : evs.getLast? = some call) : lastCall (log ++ evs ++ [.step pre post]) = some call := by
  obtain ⟨front, rfl⟩ := List.getLast?_eq_some_iff.mp h
  have hfilter : [call].filter Event.isCall = [call] := List.filter_cons_of_pos hcall
  have hstep : [Event.step pre post].filter Event.isCall = [] := rfl
  rw [lastCall, List.filter_append, List.filter_append, List.filter_append, hfilter, hstep,
    List.append_nil, ← List.append_assoc]
  exact List.getLast?_concat

/-! ## A turn that stays -/

/-- The phase is one that waits for the call. -/
def ConnPhase.WaitsFor (phase : ConnPhase) (call : Event) : Prop :=
  call.Blocked ∧ (connPhaseEvent phase = some POLLIN ∧ call.IsRecv ∨
    connPhaseEvent phase = some POLLOUT ∧ call.IsSend)

/-- A turn that stays in its phase has ended with a call that blocked. -/
theorem Turn.stays (h : Turn pre evs post) (hsame : post.phase = pre.phase) :
    ∃ call, evs.getLast? = some call ∧ (post.phase.WaitsFor call ∨
      pre.phase = .sending100 ∧ ∃ o, evs =
        [.send (continue100Buf.contents.drop pre.st.getSend.sent) o] ∧
        o.clip (continue100Buf.contents.drop pre.st.getSend.sent).length = o ∧
        o.status continue100Buf.size pre.st.getSend.sent = .hasMore) := by
  have recv : ∀ (outs : List RecvOutcome), outs.getLast? = some .again →
      (outs.map Event.recv).getLast? = some (.recv .again) := by
    intro outs hlast
    rw [List.getLast?_map, hlast]
    rfl
  cases h with
  | headWaits hphase hread hnone hlast =>
    exact ⟨_, recv _ hlast, .inl ⟨.recv, .inl ⟨rfl, _, rfl⟩⟩⟩
  | headCloses hphase => exact absurd (hsame.trans hphase) (by simp)
  | headTooLong hphase => exact absurd (hsame.trans hphase) (by simp)
  | headRejected hphase => exact absurd (hsame.trans hphase) (by simp)
  | headContinue hphase => exact absurd (hsame.trans hphase) (by simp)
  | @headAccepted outs buf terminator read hphase =>
    rcases read.dispatched_phase with h | h | h <;>
      exact absurd (h.symm.trans (hsame.trans hphase)) (by simp)
  | @continueWaits o hphase hclip hstatus => exact ⟨_, rfl, .inr ⟨hphase, o, rfl, hclip, hstatus⟩⟩
  | @continueSent o hphase =>
    rcases Connection.dispatched_phase { pre with st := .send (pre.st.getSend.advance o) } with
      h | h | h <;> exact absurd (h.symm.trans (hsame.trans hphase)) (by simp)
  | continueCloses hphase => exact absurd (hsame.trans hphase) (by simp)
  | lengthWaits hphase hread hcount hless hlast =>
    exact ⟨_, recv _ hlast, .inl ⟨.recv, .inl ⟨rfl, _, rfl⟩⟩⟩
  | lengthDone hphase => exact absurd (hsame.trans hphase) (by simp)
  | lengthFails hphase => exact absurd (hsame.trans hphase) (by simp)
  | chunkedWaits hphase hread hstatus hlast =>
    exact ⟨_, recv _ hlast, .inl ⟨.recv, .inl ⟨rfl, _, rfl⟩⟩⟩
  | chunkedDone hphase => exact absurd (hsame.trans hphase) (by simp)
  | chunkedFails hphase => exact absurd (hsame.trans hphase) (by simp)
  | builtBuffered hphase => exact absurd (hsame.trans hphase) (by simp)
  | builtStream hphase => exact absurd (hsame.trans hphase) (by simp)
  | sendWaits hphase hclip hstatus =>
    exact ⟨_, rfl, .inl ⟨.send hstatus, .inr ⟨rfl, _, _, rfl⟩⟩⟩
  | @sendDone o hphase =>
    rcases Connection.completed_phase { pre with st := .send (pre.st.getSend.advance o) } with
      h | h <;> exact absurd (h.symm.trans (hsame.trans hphase)) (by simp)
  | sendCloses hphase => exact absurd (hsame.trans hphase) (by simp)
  | streamTurns hphase hsends hend =>
    cases hend with
    | waits hstreamed hlast hblocked =>
      have hsend := hsends _ (List.mem_of_getLast? hlast)
      exact ⟨_, hlast, .inl ⟨hblocked, .inr ⟨rfl, hsend⟩⟩⟩
    | closes => exact absurd (hsame.trans hphase) (by simp)
    | @done sent =>
      rcases sent.completed_phase with h | h <;>
        exact absurd (h.symm.trans (hsame.trans hphase)) (by simp)

/-! ## Resting connections -/

/-- How much `send` takes when it takes all it is offered; a fatal answer is no obstacle either. -/
def SendOutcome.TakesAll (len : ℕ) : SendOutcome → Prop
  | .accepted n => n = len
  | .again | .interrupted => False
  | .peerClosed | .error => True

/-- In this log no `send` of the interim response has blocked. -/
def ContinueUnblocked (log : List Event) : Prop :=
  ∀ offered o pre post, [.send offered o, .step pre post] <:+: visible log →
    pre.phase = .sending100 → o.TakesAll offered.length

theorem SendOutcome.TakesAll.status {o : SendOutcome} {sent : ℕ}
    (hsent : sent ≤ CONTINUE_100.length)
    (h : o.TakesAll (continue100Buf.contents.drop sent).length) :
    o.status continue100Buf.size sent ≠ .hasMore := by
  have hsize : continue100Buf.size = CONTINUE_100.length := rfl
  have hlen : continue100Buf.contents.length = CONTINUE_100.length :=
    congrArg List.length (List.take_length : continue100Buf.contents = CONTINUE_100)
  cases o with
  | accepted n =>
    have hn : n = (continue100Buf.contents.drop sent).length := h
    rw [List.length_drop, hlen] at hn
    rw [SendOutcome.status, if_pos (by omega)]
    simp
  | again => exact h.elim
  | interrupted => exact h.elim
  | peerClosed => simp [SendOutcome.status]
  | error => simp [SendOutcome.status]

/-- What the poll loop relies on when `connection_step_process` has returned. -/
def Pollable (m : Machine σ) : Prop :=
  ∃ event, connPhaseEvent m.conn.phase = some event ∧
    (m.conn.phase = .closed ∨ ∃ call, lastCall m.io.log = some call ∧ call.Blocked ∧
      (event = POLLIN ↔ call.IsRecv) ∧ (event = POLLOUT ↔ call.IsSend))

theorem ConnPhase.WaitsFor.pollable {call : Event} (h : m.conn.phase.WaitsFor call)
    (hlast : lastCall m.io.log = some call) : Pollable m := by
  obtain ⟨hblocked, ⟨hevent, hrecv⟩ | ⟨hevent, hsend⟩⟩ := h
  · refine ⟨POLLIN, hevent, .inr ⟨call, hlast, hblocked, iff_of_true rfl hrecv,
      iff_of_false (by decide) ?_⟩⟩
    obtain ⟨o, rfl⟩ := hrecv
    rintro ⟨offered, o', h⟩
    cases h
  · refine ⟨POLLOUT, hevent, .inr ⟨call, hlast, hblocked, iff_of_false (by decide) ?_,
      iff_of_true rfl hsend⟩⟩
    obtain ⟨offered, o, rfl⟩ := hsend
    rintro ⟨o', h⟩
    cases h

/-- A call that blocked is a call. -/
theorem Event.Blocked.isCall {e : Event} (h : e.Blocked) : e.isCall := by
  cases h <;> rfl

theorem connectionStepProcess_pollable (router : Router σ) (hwf : m.conn.WellFormed)
    (hopen : m.conn.phase ≠ .closed)
    (hcontinue : ContinueUnblocked (connectionStepProcess router m).io.log) :
    Pollable (connectionStepProcess router m) := by
  obtain ⟨m', -, hwf', hopen', hrests, heq⟩ := connectionStepProcess_rests router hwf hopen
  obtain ⟨evs, hturn, hlog⟩ := stepPhase_turn router hwf' hopen'
  rw [heq] at hcontinue ⊢
  rcases hrests with hsame | hclosed
  · obtain ⟨call, hlast, hwaits | ⟨hphase, o, rfl, hclip, hstatus⟩⟩ := hturn.stays hsame
    · refine hwaits.pollable ?_
      rw [← lastCall_visible, hlog]
      exact lastCall_append_step hwaits.1.isCall hlast
    · have hpart : [Event.send (continue100Buf.contents.drop m'.conn.st.getSend.sent) o,
          .step m'.conn (stepPhase router m').conn] <:+: visible (stepPhase router m').io.log := by
        rw [hlog, List.append_assoc]
        exact (List.suffix_append _ _).isInfix
      have hall := hcontinue _ _ _ _ hpart hphase
      exact absurd hstatus (hall.status (hwf'.interim hphase))
  · exact ⟨0, by rw [hclosed]; rfl, .inl hclosed⟩

/-- Every `send` has taken all that it was offered. -/
theorem ContinueUnblocked.of_calls {log calls : List Event}
    (hcalls : (visible log).filter Event.isCall = calls)
    (hall : ∀ offered o, .send offered o ∈ calls → o.TakesAll offered.length) :
    ContinueUnblocked log := by
  intro offered o pre post hpart hphase
  apply hall
  rw [← hcalls, List.mem_filter]
  exact ⟨hpart.subset (List.mem_cons_self ..), rfl⟩

theorem serve_pollable_of_wellFormed (router : Router σ) (w : Wake σ) (wakes : List (Wake σ))
    (hwf : m.conn.WellFormed) (hopen : m.conn.phase ≠ .closed)
    (hcontinue : ContinueUnblocked (serve router m (w :: wakes)).io.log) :
    Pollable (serve router m (w :: wakes)) := by
  induction wakes generalizing m w with
  | nil =>
    rw [serve_cons router m w [] hopen] at hcontinue ⊢
    exact connectionStepProcess_pollable router (m := m.wake w) hwf hopen hcontinue
  | cons w' wakes ih =>
    have hreaches := connectionStepProcess_reaches router w hwf hopen
    have hwf' := hreaches.wellFormed hwf
    rw [serve_cons router m w _ hopen] at hcontinue ⊢
    by_cases hclosed : (connectionStepProcess router (m.wake w)).conn.phase = .closed
    · rw [serve_closed router _ _ hclosed]
      exact ⟨0, by rw [hclosed]; rfl, .inl hclosed⟩
    · exact ih w' hwf' hclosed hcontinue

theorem serve_pollable (router : Router σ) (slot : Connection) (backing backingCap : ℕ)
    (newFd : ℤ) (world : World σ) (wakes : List (Wake σ))
    (hcontinue : ContinueUnblocked
      (serve router (.ofSlot slot backing backingCap newFd world) wakes).io.log) :
    (connPhaseEvent
      (serve router (.ofSlot slot backing backingCap newFd world) wakes).conn.phase).isSome ∧
    (wakes ≠ [] → Pollable (serve router (.ofSlot slot backing backingCap newFd world) wakes)) := by
  have hwf := Machine.ofSlot_wellFormed slot backing backingCap newFd world
  cases wakes with
  | nil => exact ⟨rfl, fun h => absurd rfl h⟩
  | cons w wakes =>
    have hpollable := serve_pollable_of_wellFormed router w wakes hwf
      (by simp [Machine.ofSlot, connectionInit]) hcontinue
    obtain ⟨event, hevent, -⟩ := id hpollable
    exact ⟨by rw [hevent]; rfl, fun _ => hpollable⟩

/-- The head of a request that waits for the interim response before it sends its body. -/
def expectingHead : Bytes :=
  ascii "PUT / HTTP/1.1" ++ CRLF ++ ascii "Host: a" ++ CRLF ++ ascii "Content-Length: 1" ++ CRLF ++
    ascii "Expect: 100-continue" ++ CRLF ++ CRLF

/-- The head arrives, `send` takes the whole interim response, and the body is waited for. -/
def continuedWakes : List (Wake Unit) :=
  [{ recvs := [.data expectingHead], sends := [.accepted CONTINUE_100.length] }]

theorem continuedWakes_calls :
    (visible (serve {} newClient continuedWakes).io.log).filter Event.isCall =
      [.recv (.data expectingHead), .send CONTINUE_100 (.accepted CONTINUE_100.length),
        .recv .again] := by
  decide +kernel

theorem continuedWakes_unblocked :
    ContinueUnblocked (serve {} newClient continuedWakes).io.log := by
  refine .of_calls continuedWakes_calls ?_
  intro offered o hmem
  simp only [List.mem_cons, List.not_mem_nil, or_false, reduceCtorEq, false_or,
    Event.send.injEq] at hmem
  obtain ⟨rfl, rfl⟩ := hmem
  rfl

theorem serve_pollable_continued :
    (visible (serve {} newClient continuedWakes).io.log).filter Event.isCall =
      [.recv (.data expectingHead), .send CONTINUE_100 (.accepted CONTINUE_100.length),
        .recv .again] ∧
      (connPhaseEvent (serve {} newClient continuedWakes).conn.phase).isSome ∧
      (continuedWakes ≠ [] → Pollable (serve {} newClient continuedWakes)) := by
  refine ⟨continuedWakes_calls, ?_⟩
  have hnew : newClient = .ofSlot {} 4096 HTTP_CONN_ARENA_SIZE 5 { handlers := () } := rfl
  have hcontinue := continuedWakes_unblocked
  rw [hnew] at hcontinue ⊢
  exact serve_pollable {} {} 4096 HTTP_CONN_ARENA_SIZE 5 { handlers := () } continuedWakes hcontinue

/-- The head arrives and the `send` of the interim response blocks. -/
theorem serve_unpollable :
    connPhaseEvent (serve {} newClient [{ recvs := [.data expectingHead] }]).conn.phase = none := by
  decide +kernel

end HttpServer
