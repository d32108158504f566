import HttpServer.Connection
import HttpServer.Receiving

/-!
# Sending a response from its buffer

The bytes that `send` accepted, and what a run of wake-ups in
`CONN_SENDING_RESPONSE` makes of them. A wake-up whose `send` takes only a part of
the response enters the phase anew and with that forgets how much is out.
-/

namespace HttpServer

variable {σ : Type*}

/-! ## One call -/

@[simp] theorem Io.assert_sends (io : Io) (b : Bool) : (io.assert b).sends = io.sends := by
  unfold Io.assert
  split <;> rfl

/-- What the next call of `send` answers when it is offered `len` bytes. -/
def Io.nextSend (io : Io) (len : ℕ) : SendOutcome := (io.sends.headD .again).clip len

theorem Io.nextSend_clip (io : Io) (len : ℕ) : (io.nextSend len).clip len = io.nextSend len := by
  unfold Io.nextSend
  cases io.sends.headD .again <;> simp [SendOutcome.clip]

theorem Io.send_eq (io : Io) (offered : Bytes) :
    io.send offered = (io.nextSend offered.length,
      { io with
        sends := io.sends.tail
        log := io.log ++ [.send offered (io.nextSend offered.length)] }) := by
  obtain ⟨recvs, sends, pulls, clock, log⟩ := io
  cases sends <;> rfl

/-- The cursor after an answer of `send`. -/
def SendSt.advance (st : SendSt) : SendOutcome → SendSt
  | .accepted n => { sent := st.sent + n }
  | _ => st

def SendOutcome.status (size sent : ℕ) : SendOutcome → SendResponseStatus
  | .accepted n => if sent + n = size then .ok else .hasMore
  | .again | .interrupted => .hasMore
  | .peerClosed => .peerClosed
  | .error => .error

/-- The assertions at the beginning of `response_send`. -/
def Io.sendAsserted (io : Io) (fd : ℤ) (resp : HttpBuffer) (st : SendSt) : Io :=
  io.assert (resp.address.isSome && 0 ≤ fd && st.sent < resp.size)

theorem responseSend_eq (fd : ℤ) (resp : HttpBuffer) (st : SendSt) (io : Io) :
    let offered := resp.contents.drop st.sent
    let o := io.nextSend offered.length
    responseSend fd resp st io = (o.status resp.size st.sent, st.advance o,
      { io.sendAsserted fd resp st with
        sends := io.sends.tail
        log := (io.sendAsserted fd resp st).log ++ [.send offered o] }) := by
  have hnext : ∀ b len, (io.assert b).nextSend len = io.nextSend len := by
    intro b len
    simp [Io.nextSend]
  simp only [responseSend, Io.send_eq, hnext, Io.assert_sends]
  cases io.nextSend (resp.contents.drop st.sent).length <;> rfl

/-! ## Wake-ups while a response is being sent -/

/-- The answer to the first `send` of a wake-up. -/
def Wake.firstSend (w : Wake σ) : SendOutcome := w.sends.headD .again

/-- The wake-ups from entering `CONN_SENDING_RESPONSE` until the phase is left. A turn that stays
in the phase ends its wake-up, so each wake-up is one turn. -/
def sendWakes (router : Router σ) : Machine σ → List (Wake σ) → Machine σ
  | m, [] => m
  | m, w :: wakes =>
    let m' := stepPhase router (m.wake w)
    if m'.conn.phase = .sendingResponse then sendWakes router m' wakes else m'

@[simp] theorem stepPhase_conn (router : Router σ) (m : Machine σ) :
    (stepPhase router m).conn =
      { (stepConn router m).2.conn with phase := (stepConn router m).1 } := rfl

@[simp] theorem stepPhase_log (router : Router σ) (m : Machine σ) :
    (stepPhase router m).io.log =
      (stepConn router m).2.io.log ++ [.step m.conn (stepPhase router m).conn] := rfl

theorem stepPhase_sends (router : Router σ) (m : Machine σ) :
    (stepPhase router m).io.sends = (stepConn router m).2.io.sends := rfl

/-- The machine after a call of `response_send` on `resp` with the cursor `st`. -/
def Machine.sent (m : Machine σ) (resp : HttpBuffer) (st : SendSt) : Machine σ :=
  let offered := resp.contents.drop st.sent
  { m with
    io := { m.io.sendAsserted m.conn.fd resp st with
      sends := m.io.sends.tail
      log := (m.io.sendAsserted m.conn.fd resp st).log ++
        [.send offered (m.io.nextSend offered.length)] } }

theorem accepted_sent (m : Machine σ) (resp : HttpBuffer) (st : SendSt) :
    accepted (m.sent resp st).io.log = accepted m.io.log ++
      (Event.send (resp.contents.drop st.sent)
        (m.io.nextSend (resp.contents.drop st.sent).length)).sentBytes := by
  simp [Machine.sent, Io.sendAsserted, accepted_assert]

/-- The `switch` of `step_response_send`. -/
def Machine.afterSend (m : Machine σ) : SendResponseStatus → ConnPhase × Machine σ
  | .hasMore => (.sendingResponse, { m with conn.st := .send {} })
  | .ok => ((responseComplete m.conn).1, { m with conn := (responseComplete m.conn).2 })
  | .error | .peerClosed => (.closed, m)

theorem stepResponseSend_eq (m : Machine σ) :
    let resp := m.conn.mem.respBuf
    let st := m.conn.st.getSend
    let o := m.io.nextSend (resp.contents.drop st.sent).length
    stepResponseSend m =
      Machine.afterSend { m.sent resp st with conn := { m.conn with st := .send (st.advance o) } }
        (o.status resp.size st.sent) := by
  simp only [stepResponseSend, responseSend_eq]
  cases SendOutcome.status _ _ _ <;> rfl

theorem responseComplete_fst (conn : Connection) :
    (responseComplete conn).1 =
      if !conn.keepAlive || conn.requests + 1 ≥ HTTP_MAX_REQUESTS then .closed
      else .readingRequest := by
  unfold responseComplete
  dsimp only
  split <;> rfl

theorem responseComplete_requests (conn : Connection) :
    (responseComplete conn).2.requests = conn.requests + 1 := by
  unfold responseComplete
  dsimp only
  split <;> rfl

/-- A turn in `CONN_SENDING_RESPONSE`, by what `response_send` reports. -/
theorem stepPhase_sendingResponse (router : Router σ) {m : Machine σ}
    (hphase : m.conn.phase = .sendingResponse) :
    let resp := m.conn.mem.respBuf
    let st := m.conn.st.getSend
    let o := m.io.nextSend (resp.contents.drop st.sent).length
    let m' := stepPhase router m
    accepted m'.io.log =
        accepted m.io.log ++ (Event.send (resp.contents.drop st.sent) o).sentBytes ∧
      match o.status resp.size st.sent with
      | .hasMore => m'.conn = { m.conn with st := .send {} }
      | .ok => m'.conn.phase ≠ .sendingResponse ∧ m'.conn.requests = m.conn.requests + 1
      | _ => m'.conn.phase ≠ .sendingResponse ∧ m'.conn.requests = m.conn.requests := by
  intro resp st o m'
  have hstep : stepConn router m = Machine.afterSend
      { m.sent resp st with conn := { m.conn with st := .send (st.advance o) } }
      (o.status resp.size st.sent) := by
    rw [← stepResponseSend_eq]
    simp only [stepConn, hphase]
  have hlog : accepted m'.io.log = accepted (stepConn router m).2.io.log := by
    simp [m', Event.sentBytes]
  rw [hlog, ← accepted_sent]
  simp only [m', stepPhase_conn, hstep]
  cases hst : o.status resp.size st.sent with
  | hasMore => exact ⟨rfl, by simp only [Machine.afterSend, ← hphase]⟩
  | ok =>
    refine ⟨rfl, ?_, responseComplete_requests _⟩
    simp only [Machine.afterSend, responseComplete_fst]
    split <;> simp
  | peerClosed => exact ⟨rfl, by simp [Machine.afterSend], rfl⟩
  | error => exact ⟨rfl, by simp [Machine.afterSend], rfl⟩

/-- A turn in which `send` takes the whole response. -/
theorem stepPhase_completes (router : Router σ) {m : Machine σ} {n : ℕ}
    (hphase : m.conn.phase = .sendingResponse) (hst : m.conn.st = .send {})
    (hbacked : m.conn.mem.respBuf.Backed) (hsend : m.io.sends.headD .again = .accepted n)
    (hall : m.conn.mem.respBuf.size ≤ n) :
    (stepPhase router m).conn.requests = m.conn.requests + 1 := by
  obtain ⟨-, hturn⟩ := stepPhase_sendingResponse router hphase
  have hcursor : m.conn.st.getSend = {} := by rw [hst]; rfl
  have hstatus : (m.io.nextSend (m.conn.mem.respBuf.contents.drop m.conn.st.getSend.sent).length).status
      m.conn.mem.respBuf.size m.conn.st.getSend.sent = .ok := by
    rw [hcursor, List.drop_zero, hbacked.length_contents, Io.nextSend, hsend, SendOutcome.clip,
      Nat.min_eq_right hall, SendOutcome.status, Nat.zero_add, if_pos rfl]
  rw [hstatus] at hturn
  exact hturn.2

/-! ## Exactness -/

/-- In `m`, reached from `start` where sending began: while the response is not out the cursor
counts what the socket has accepted, and when it is out exactly its bytes have been accepted. -/
structure SentExactly (start m : Machine σ) : Prop where
  resumes : m.conn.phase = .sendingResponse →
    (accepted m.io.log).length = (accepted start.io.log).length + m.conn.st.getSend.sent
  complete : m.conn.requests ≠ start.conn.requests →
    accepted m.io.log = accepted start.io.log ++ start.conn.mem.respBuf.contents

/-- The outcomes that the poll loop can survive: the socket takes some bytes or none for now. -/
def SendOutcome.NonFatal (o : SendOutcome) : Prop :=
  o = .again ∨ o = .interrupted ∨ ∃ n, 0 < n ∧ o = .accepted n

/-- How much the first `send` that is accepted at all takes. -/
def firstAccepted (wakes : List (Wake σ)) : Option ℕ :=
  wakes.findSome? fun w => match w.firstSend with
    | .accepted n => some n
    | _ => none

theorem SentExactly.congr {start start' m : Machine σ} (hconn : start'.conn = start.conn)
    (hlog : accepted start'.io.log = accepted start.io.log) :
    SentExactly start' m ↔ SentExactly start m := by
  constructor
  · rintro ⟨hres, hcomp⟩
    rw [hconn, hlog] at *
    exact ⟨hres, hcomp⟩
  · rintro ⟨hres, hcomp⟩
    rw [← hconn, ← hlog] at *
    exact ⟨hres, hcomp⟩

theorem SentExactly.refl {m : Machine σ} (hst : m.conn.st = .send {}) : SentExactly m m where
  resumes _ := by rw [hst]; rfl
  complete h := absurd rfl h

/-- The first turn of a wake-up, when the cursor is at the beginning. -/
theorem stepPhase_wake_sendingResponse (router : Router σ) {m : Machine σ} (w : Wake σ)
    (hphase : m.conn.phase = .sendingResponse) (hst : m.conn.st = .send {})
    (hbacked : m.conn.mem.respBuf.Backed) :
    let resp := m.conn.mem.respBuf
    let o := w.firstSend.clip resp.size
    let m' := stepPhase router (m.wake w)
    accepted m'.io.log = accepted m.io.log ++ (Event.send resp.contents o).sentBytes ∧
      match o.status resp.size 0 with
      | .hasMore => m'.conn = m.conn
      | .ok => m'.conn.phase ≠ .sendingResponse ∧ m'.conn.requests = m.conn.requests + 1
      | _ => m'.conn.phase ≠ .sendingResponse ∧ m'.conn.requests = m.conn.requests := by
  have hturn := stepPhase_sendingResponse router (m := m.wake w) hphase
  have hcursor : (m.wake w).conn.st.getSend = {} := by
    show m.conn.st.getSend = {}
    rw [hst]
    rfl
  have hsame : ({ (m.wake w).conn with st := .send {} } : Connection) = m.conn := by
    rw [← hst]
    rfl
  have hnext : (m.wake w).io.nextSend m.conn.mem.respBuf.contents.length =
      w.firstSend.clip m.conn.mem.respBuf.size := by
    rw [hbacked.length_contents]
    rfl
  rw [hcursor, hsame] at hturn
  simp only [List.drop_zero] at hturn
  intro resp o m'
  have hoffered : (m.wake w).conn.mem.respBuf.contents = resp.contents := rfl
  rw [hoffered, hnext] at hturn
  exact hturn

/-- A wake-up whose `send` takes nothing leaves the connection as it is. -/
theorem stepPhase_wake_waits (router : Router σ) {m : Machine σ} {w : Wake σ}
    (hphase : m.conn.phase = .sendingResponse) (hst : m.conn.st = .send {})
    (hbacked : m.conn.mem.respBuf.Backed)
    (hwait : w.firstSend = .again ∨ w.firstSend = .interrupted) :
    (stepPhase router (m.wake w)).conn = m.conn ∧
      accepted (stepPhase router (m.wake w)).io.log = accepted m.io.log := by
  obtain ⟨hlog, hturn⟩ := stepPhase_wake_sendingResponse router w hphase hst hbacked
  rcases hwait with hwait | hwait
  all_goals
    rw [hwait] at hlog hturn
    refine ⟨hturn, ?_⟩
    rw [hlog]
    exact List.append_nil _

/-- A wake-up whose `send` takes the whole response completes it. -/
theorem stepPhase_wake_all (router : Router σ) {m : Machine σ} {w : Wake σ} {n : ℕ}
    (hphase : m.conn.phase = .sendingResponse) (hst : m.conn.st = .send {})
    (hbacked : m.conn.mem.respBuf.Backed) (haccepted : w.firstSend = .accepted n)
    (hall : m.conn.mem.respBuf.size ≤ n) :
    (stepPhase router (m.wake w)).conn.phase ≠ .sendingResponse ∧
      accepted (stepPhase router (m.wake w)).io.log =
        accepted m.io.log ++ m.conn.mem.respBuf.contents := by
  obtain ⟨hlog, hturn⟩ := stepPhase_wake_sendingResponse router w hphase hst hbacked
  have hclip : (SendOutcome.accepted n).clip m.conn.mem.respBuf.size =
      .accepted m.conn.mem.respBuf.size := by
    rw [SendOutcome.clip, Nat.min_eq_right hall]
  rw [haccepted, hclip] at hlog hturn
  have hstatus : (SendOutcome.accepted m.conn.mem.respBuf.size).status
      m.conn.mem.respBuf.size 0 = .ok := by
    rw [SendOutcome.status, Nat.zero_add, if_pos rfl]
  rw [hstatus] at hturn
  refine ⟨hturn.1, ?_⟩
  rw [hlog, Event.sentBytes, List.take_of_length_le hbacked.length_contents.le]

/-- A wake-up whose `send` takes a part of the response forgets that it did. -/
theorem stepPhase_wake_part (router : Router σ) {m : Machine σ} {w : Wake σ} {n : ℕ}
    (hphase : m.conn.phase = .sendingResponse) (hst : m.conn.st = .send {})
    (hbacked : m.conn.mem.respBuf.Backed) (haccepted : w.firstSend = .accepted n)
    (hpart : n < m.conn.mem.respBuf.size) :
    (stepPhase router (m.wake w)).conn = m.conn ∧
      (accepted (stepPhase router (m.wake w)).io.log).length =
        (accepted m.io.log).length + n := by
  obtain ⟨hlog, hturn⟩ := stepPhase_wake_sendingResponse router w hphase hst hbacked
  have hclip : (SendOutcome.accepted n).clip m.conn.mem.respBuf.size = .accepted n := by
    rw [SendOutcome.clip, Nat.min_eq_left hpart.le]
  rw [haccepted, hclip] at hlog hturn
  have hstatus : (SendOutcome.accepted n).status m.conn.mem.respBuf.size 0 = .hasMore := by
    rw [SendOutcome.status, Nat.zero_add, if_neg hpart.ne]
  rw [hstatus] at hturn
  refine ⟨hturn, ?_⟩
  rw [hlog, List.length_append, Event.sentBytes, List.length_take, hbacked.length_contents,
    Nat.min_eq_left hpart.le]

/-- After a wake-up that sends a part, the cursor is not where the next one should resume. -/
theorem not_sentExactly_of_part (router : Router σ) {m : Machine σ} {w : Wake σ} {n : ℕ}
    (hphase : m.conn.phase = .sendingResponse) (hst : m.conn.st = .send {})
    (hbacked : m.conn.mem.respBuf.Backed) (haccepted : w.firstSend = .accepted n)
    (hpos : 0 < n) (hpart : n < m.conn.mem.respBuf.size) :
    ¬ SentExactly m (sendWakes router m [w]) := by
  obtain ⟨hconn, hlen⟩ := stepPhase_wake_part router hphase hst hbacked haccepted hpart
  have hstay : (stepPhase router (m.wake w)).conn.phase = .sendingResponse := hconn ▸ hphase
  have hone : sendWakes router m [w] = stepPhase router (m.wake w) := by
    simp only [sendWakes, hstay, if_true]
  intro h
  rw [hone] at h
  have hresumes := h.resumes hstay
  rw [hconn, hst, hlen] at hresumes
  simp only [PhaseSt.getSend] at hresumes
  omega

/-- For every sequence of wake-ups and after each of them. -/
theorem sendWakes_exact_iff (router : Router σ) (m : Machine σ) (wakes : List (Wake σ))
    (hphase : m.conn.phase = .sendingResponse) (hst : m.conn.st = .send {})
    (hbacked : m.conn.mem.respBuf.Backed) (hsends : ∀ w ∈ wakes, w.firstSend.NonFatal) :
    (∀ k, SentExactly m (sendWakes router m (wakes.take k))) ↔
      ∀ n, firstAccepted wakes = some n → m.conn.mem.respBuf.size ≤ n := by
  induction wakes generalizing m with
  | nil =>
    refine iff_of_true (fun k => ?_) (fun n h => by cases h)
    rw [List.take_nil]
    exact .refl hst
  | cons w wakes ih =>
    have hsucc : ∀ k, sendWakes router m ((w :: wakes).take (k + 1)) =
        if (stepPhase router (m.wake w)).conn.phase = .sendingResponse then
          sendWakes router (stepPhase router (m.wake w)) (wakes.take k)
        else stepPhase router (m.wake w) := by
      intro k
      rw [List.take_succ_cons, sendWakes]
    -- the first wake-up decides unless it waits, and then the rest decides
    have waits : firstAccepted (w :: wakes) = firstAccepted wakes →
        (w.firstSend = .again ∨ w.firstSend = .interrupted) →
        ((∀ k, SentExactly m (sendWakes router m ((w :: wakes).take k))) ↔
          ∀ n, firstAccepted (w :: wakes) = some n → m.conn.mem.respBuf.size ≤ n) := by
      intro hfirst hwait
      obtain ⟨hconn, hlog⟩ := stepPhase_wake_waits router hphase hst hbacked hwait
      generalize stepPhase router (m.wake w) = m' at hsucc hconn hlog
      have hrest := ih m' (hconn ▸ hphase) (hconn ▸ hst) (hconn ▸ hbacked)
        fun w' hw' => hsends w' (List.mem_cons_of_mem _ hw')
      have hstay : m'.conn.phase = .sendingResponse := hconn ▸ hphase
      simp only [hstay, if_true] at hsucc
      rw [hfirst, ← hconn, ← hrest]
      constructor
      · intro h k
        rw [SentExactly.congr hconn hlog, ← hsucc]
        exact h (k + 1)
      · intro h k
        cases k with
        | zero => exact .refl hst
        | succ k =>
          rw [hsucc, ← SentExactly.congr hconn hlog]
          exact h k
    rcases hsends w (List.mem_cons_self ..) with hagain | hintr | ⟨n, hpos, hacc⟩
    · exact waits (by simp [firstAccepted, hagain]) (.inl hagain)
    · exact waits (by simp [firstAccepted, hintr]) (.inr hintr)
    · have hfirst : firstAccepted (w :: wakes) = some n := by simp [firstAccepted, hacc]
      by_cases hall : m.conn.mem.respBuf.size ≤ n
      · obtain ⟨hleft, hlog⟩ := stepPhase_wake_all router hphase hst hbacked hacc hall
        refine iff_of_true (fun k => ?_) (fun n' h => ?_)
        · cases k with
          | zero => exact .refl hst
          | succ k =>
            rw [hsucc, if_neg hleft]
            exact ⟨fun h => absurd h hleft, fun _ => hlog⟩
        · rw [hfirst] at h
          exact Option.some.inj h ▸ hall
      · exact iff_of_false
          (fun h => not_sentExactly_of_part router hphase hst hbacked hacc hpos
            (Nat.lt_of_not_le hall) (h 1))
          (fun h => hall (h n hfirst))

/-- A connection that is about to send the canned 404 response. -/
def notFoundSending : Machine Unit where
  conn :=
    { phase := .sendingResponse
      st := .send {}
      fd := 5
      mem :=
        { respBuf := (responseErrorSerialize
            { cap := HTTP_RESPONSE_BUFFER_SIZE, address := some 0 } .notFound {}).1 } }
  world := { handlers := () }

theorem notFoundSending_size : notFoundSending.conn.mem.respBuf.size = 112 := by decide +kernel

theorem notFoundSending_backed : notFoundSending.conn.mem.respBuf.Backed := by
  unfold HttpBuffer.Backed
  decide +kernel

theorem sendWakes_exact_iff_waiting :
    (∀ k, SentExactly notFoundSending
      (sendWakes {} notFoundSending ([{}, { sends := [.accepted 200] }].take k))) ↔
      ∀ n, firstAccepted (σ := Unit) [{}, { sends := [.accepted 200] }] = some n →
        notFoundSending.conn.mem.respBuf.size ≤ n :=
  sendWakes_exact_iff {} notFoundSending [{}, { sends := [.accepted 200] }] rfl rfl
    notFoundSending_backed (by
      intro w hw
      rcases List.mem_cons.mp hw with rfl | hw
      · exact .inl rfl
      · exact .inr (.inr ⟨200, by decide, List.mem_singleton.mp hw ▸ rfl⟩))

/-- One byte of the response goes out, and then the whole response. -/
theorem sendWakes_resends :
    ¬ (∀ k, SentExactly notFoundSending (sendWakes {} notFoundSending
      ([{ sends := [.accepted 1] }, { sends := [.accepted 200] }].take k))) := by
  intro h
  refine not_sentExactly_of_part {} (w := { sends := [.accepted 1] }) rfl rfl
    notFoundSending_backed rfl Nat.one_pos ?_ (h 1)
  rw [notFoundSending_size]
  decide

end HttpServer
