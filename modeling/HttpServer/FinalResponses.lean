import HttpServer.HeadTracking
import HttpServer.Persistence

/-!
# Final responses and the requests they answer

A request stands at a position of the received stream, the one that `req_buf` begins
with when its head is read. Responses that a handler's request leads to move on to the
next position; an error response leaves the buffer as it is.
-/

namespace HttpServer

variable {σ : Type*} {pre post : Connection} {evs : List Event} {byError keepAlive : Bool}
  {text : Option Bytes}

/-! ## Runs and their turns -/

/-- A run, together with the machines its turns start from. -/
inductive Trace (router : Router σ) (allowed : Machine σ → Prop) (m₀ : Machine σ) :
    List (Machine σ) → Machine σ → Prop where
  | start : Trace router allowed m₀ [] m₀
  | wake {ts m} (h : Trace router allowed m₀ ts m) (w : Wake σ) (hopen : m.conn.phase ≠ .closed) :
      Trace router allowed m₀ ts (m.wake w)
  | turn {ts m} (h : Trace router allowed m₀ ts m) (hopen : m.conn.phase ≠ .closed)
      (hallowed : allowed m) : Trace router allowed m₀ (ts ++ [m]) (stepPhase router m)

variable {router : Router σ} {allowed : Machine σ → Prop} {m₀ m a b : Machine σ}
  {ts : List (Machine σ)}

theorem Trace.reaches (h : Trace router allowed m₀ ts m) : Reaches router allowed m₀ m := by
  induction h with
  | start => exact .refl
  | wake h w hopen ih => exact ih.tail (.wake w hopen)
  | turn h hopen hallowed ih => exact ih.tail (.turn hopen hallowed)

/-- How much of what has been received lies before the buffered bytes. -/
def Machine.position (m : Machine σ) : ℕ :=
  (received m.io.log).length - m.conn.mem.reqBuf.contents.length

/-- The turn of `m` serializes a final response, by `response_error_serialize` or not. -/
def Machine.Stages (router : Router σ) (byError : Bool) (m : Machine σ) : Prop :=
  ∃ evs keepAlive text, visible (stepPhase router m).io.log = visible m.io.log ++ evs ∧
    .staged byError keepAlive text ∈ evs

def Machine.Answers (router : Router σ) (m : Machine σ) : Prop := ∃ byError, m.Stages router byError

/-! ## What a turn answers -/

/-- An error response is the last of its turn; the others give up the bytes of the request. -/
theorem Turn.staged (h : Turn pre evs post) (hwf : pre.WellFormed)
    (hmem : .staged byError keepAlive text ∈ evs) :
    ¬ pre.phase.Sends ∧
      ((byError = true ∧ post.phase = .sendingResponse ∧
        ∃ outs : List RecvOutcome, evs = outs.map .recv ++ [.staged byError keepAlive text]) ∨
      (byError = false ∧ pre.phase = .building ∧
        post.mem.reqBuf.contents.length < pre.mem.reqBuf.contents.length ∧ received evs = [])) := by
  have idle : ∀ {phase : ConnPhase}, pre.phase = phase → phase ≠ .sendingResponse →
      phase ≠ .sendingResponseStream → ¬ pre.phase.Sends := by
    rintro phase hphase hne hne' (hsends | hsends)
    · exact hne (hphase.symm.trans hsends)
    · exact hne' (hphase.symm.trans hsends)
  have recv : ∀ {outs : List RecvOutcome},
      .staged byError keepAlive text ∈ outs.map Event.recv → False := by
    intro outs hmem
    obtain ⟨o, -, ho⟩ := List.mem_map.mp hmem
    cases ho
  have error : ∀ {outs : List RecvOutcome} {text' : Option Bytes},
      .staged byError keepAlive text ∈ outs.map Event.recv ++ [.staged true false text'] →
      byError = true ∧ ∃ outs' : List RecvOutcome, outs.map Event.recv ++
        [.staged true false text'] = outs'.map .recv ++ [.staged byError keepAlive text] := by
    intro outs text' hmem
    rcases List.mem_append.mp hmem with hmem | hmem
    · exact absurd hmem recv
    · obtain ⟨rfl, rfl, rfl⟩ := Event.staged.inj (List.mem_singleton.mp hmem)
      exact ⟨rfl, outs, rfl⟩
  have consumed : ∀ (arena : Arena) (resp : HttpBuffer) (producer : Stream),
      pre.phase = .building →
      (requestConsume (pre.prepared arena resp producer)).mem.reqBuf.contents.length <
        pre.mem.reqBuf.contents.length := by
    intro arena resp producer hphase
    have hread := hwf.head (.inr (.inr (.inr hphase)))
    have hle := hread.bodyStart_le
    obtain ⟨terminator, -, hstart⟩ := hread
    rw [(requestConsume_reqBuf (pre.prepared arena resp producer) hwf.backed).2]
    show (if 0 < pre.nextReqOffset then pre.mem.reqBuf.contents.drop pre.nextReqOffset
      else []).length < _
    split
    · rw [List.length_drop]
      omega
    · rw [List.length_nil]
      omega
  cases h with
  | headTooLong hphase =>
    obtain ⟨hby, hevs⟩ := error hmem
    exact ⟨idle hphase (by simp) (by simp), .inl ⟨hby, rfl, hevs⟩⟩
  | headRejected hphase =>
    obtain ⟨hby, hevs⟩ := error hmem
    exact ⟨idle hphase (by simp) (by simp), .inl ⟨hby, rfl, hevs⟩⟩
  | lengthFails hphase =>
    obtain ⟨hby, hevs⟩ := error hmem
    exact ⟨idle hphase (by simp) (by simp), .inl ⟨hby, rfl, hevs⟩⟩
  | chunkedFails hphase =>
    obtain ⟨hby, hevs⟩ := error hmem
    exact ⟨idle hphase (by simp) (by simp), .inl ⟨hby, rfl, hevs⟩⟩
  | builtBuffered hphase =>
    obtain ⟨rfl, -, -⟩ := Event.staged.inj (List.mem_singleton.mp hmem)
    exact ⟨idle hphase (by simp) (by simp), .inr ⟨rfl, hphase, consumed _ _ _ hphase, rfl⟩⟩
  | builtStream hphase =>
    obtain ⟨rfl, -, -⟩ := Event.staged.inj (List.mem_singleton.mp hmem)
    exact ⟨idle hphase (by simp) (by simp), .inr ⟨rfl, hphase, consumed _ _ _ hphase, rfl⟩⟩
  | streamTurns hphase hsends =>
    obtain ⟨offered, o, ho⟩ := hsends _ hmem
    cases ho
  | continueWaits | continueSent | continueCloses | sendWaits | sendDone | sendCloses =>
    cases List.mem_singleton.mp hmem
  | _ => exact absurd hmem recv

/-- While a response is sent from `resp_buf`, no other one is staged, and the connection is kept
only when it says so. -/
theorem Turn.sending (h : Turn pre evs post) (hphase : pre.phase = .sendingResponse) :
    (∀ e ∈ evs, e.isStaged = false) ∧
      (post.phase = .sendingResponse ∨ post.phase = .closed ∨
        pre.keepAlive = true ∧ pre.requests + 1 < HTTP_MAX_REQUESTS) := by
  cases h with
  | sendWaits => exact ⟨by simp [Event.isStaged], .inl rfl⟩
  | sendCloses => exact ⟨by simp [Event.isStaged], .inr (.inl rfl)⟩
  | @sendDone o =>
    refine ⟨by simp [Event.isStaged], .inr ?_⟩
    have hcompleted : ({ pre with st := .send (pre.st.getSend.advance o) } :
        Connection).completed.phase =
        (responseComplete { pre with st := .send (pre.st.getSend.advance o) }).1 := rfl
    rw [hcompleted, responseComplete_fst]
    by_cases hkeep : (!pre.keepAlive || decide (pre.requests + 1 ≥ HTTP_MAX_REQUESTS)) = true
    · exact .inl (if_pos hkeep)
    · simp only [Bool.or_eq_true, Bool.not_eq_true', decide_eq_true_eq, not_or] at hkeep
      exact .inr ⟨by simpa using hkeep.1, by omega⟩
  | headWaits h | headCloses h | headTooLong h | headRejected h | headContinue h
  | headAccepted h | continueWaits h | continueSent h | continueCloses h | lengthWaits h
  | lengthDone h | lengthFails h | chunkedWaits h | chunkedDone h | chunkedFails h
  | builtBuffered h | builtStream h | streamTurns h =>
    rw [hphase] at h
    cases h

/-- The turn of a machine as a `Turn`, and the responses it stages. -/
theorem stepPhase_stages (router : Router σ) (hwf : m.conn.WellFormed)
    (hopen : m.conn.phase ≠ .closed) :
    ∃ evs, Turn m.conn evs (stepPhase router m).conn ∧
      visible (stepPhase router m).io.log =
        visible m.io.log ++ evs ++ [.step m.conn (stepPhase router m).conn] ∧
      ∀ byError, m.Stages router byError ↔
        ∃ keepAlive text, .staged byError keepAlive text ∈ evs := by
  obtain ⟨evs, hturn, hlog⟩ := stepPhase_turn router hwf hopen
  refine ⟨evs, hturn, hlog, fun byError => ⟨?_, ?_⟩⟩
  · rintro ⟨evs', keepAlive, text, hlog', hmem⟩
    rw [hlog, List.append_assoc] at hlog'
    rw [← List.append_cancel_left hlog'] at hmem
    rcases List.mem_append.mp hmem with hmem | hmem
    · exact ⟨keepAlive, text, hmem⟩
    · cases List.mem_singleton.mp hmem
  · rintro ⟨keepAlive, text, hmem⟩
    exact ⟨_, keepAlive, text, hlog.trans (List.append_assoc ..),
      List.mem_append_left _ hmem⟩

/-- Whatever the turn does, the buffered bytes do not go back in the stream, and past the request
when it is answered by its handler. -/
theorem stepPhase_position (router : Router σ) (hwf : m.conn.WellFormed)
    (hopen : m.conn.phase ≠ .closed)
    (hsuffix : m.conn.mem.reqBuf.contents <:+ received m.io.log) :
    m.position ≤ (stepPhase router m).position ∧
      (m.Stages router false → m.position < (stepPhase router m).position) := by
  obtain ⟨evs, hturn, hlog, hstages⟩ := stepPhase_stages router hwf hopen
  have hreceived : received (stepPhase router m).io.log = received m.io.log ++ received evs := by
    have hnone : received [Event.step m.conn (stepPhase router m).conn] = [] := rfl
    rw [← received_visible, hlog, received_append, received_append, received_visible, hnone,
      List.append_nil]
  have hkept := (hturn.contents_suffix hwf).length_le
  have hle := hsuffix.length_le
  rw [List.length_append] at hkept
  unfold Machine.position
  rw [hreceived, List.length_append]
  refine ⟨by omega, fun hstaged => ?_⟩
  obtain ⟨keepAlive, text, hmem⟩ := (hstages false).mp hstaged
  obtain ⟨-, ⟨hby, -⟩ | ⟨-, -, hless, hnone⟩⟩ := hturn.staged hwf hmem
  · cases hby
  · rw [hnone, List.length_nil]
    omega

/-- A head that is answered at once is answered with an error response. -/
theorem stages_of_head (router : Router σ) (hwf : m.conn.WellFormed)
    (hphase : m.conn.phase = .readingRequest)
    (hpost : (stepPhase router m).conn.phase = .sendingResponse) : m.Stages router true := by
  obtain ⟨evs, hturn, -, hstages⟩ := stepPhase_stages router hwf (by rw [hphase]; simp)
  rcases hturn.sends (.inl hpost) with ⟨front, byError, keepAlive, text, rfl, -⟩ | ⟨hsends, -⟩
  · have hmem : Event.staged byError keepAlive text ∈ front ++ [.staged byError keepAlive text] :=
      List.mem_append_right _ (List.mem_singleton_self _)
    obtain ⟨-, ⟨rfl, -⟩ | ⟨-, hbuilding, -⟩⟩ := hturn.staged hwf hmem
    · exact (hstages true).mpr ⟨keepAlive, text, hmem⟩
    · rw [hphase] at hbuilding
      cases hbuilding
  · rcases hsends with hsends | hsends <;> rw [hphase] at hsends <;> cases hsends

/-! ## Error responses that close the connection -/

/-- The response staged last is an error response. -/
def Machine.ErrorPending (m : Machine σ) : Prop :=
  ∃ keepAlive text, lastStaged m.io.log = some (.staged true keepAlive text)

/-- An error response is not sent on a connection that will be kept. -/
def ErrorCloses (m : Machine σ) : Prop :=
  m.conn.phase = .sendingResponse → m.ErrorPending → m.conn.keepAlive = true →
    HTTP_MAX_REQUESTS ≤ m.conn.requests + 1

/-- Two turns, one after the other, do not answer the same request, and after an error response
no head is read. -/
def Apart (router : Router σ) (a b : Machine σ) : Prop :=
  (a.Answers router → b.Answers router → a.position < b.position) ∧
    (a.Stages router true → b.conn.phase ≠ .readingRequest)

/-- What holds of a run and the machine it ends in. -/
structure TraceApart (router : Router σ) (ts : List (Machine σ)) (m : Machine σ) : Prop where
  apart : ts.Pairwise (Apart router)
  behind : (∀ a ∈ ts, ¬ a.Stages router true) →
    ∀ a ∈ ts, a.Answers router → a.position < m.position
  errored : ∀ a ∈ ts, a.Stages router true →
    m.conn.phase = .closed ∨ m.conn.phase = .sendingResponse ∧ m.ErrorPending

/-- A pending error response stays the last one until it is out, and then the connection is
closed. -/
theorem stepPhase_errorPending (router : Router σ) (hwf : m.conn.WellFormed)
    (hphase : m.conn.phase = .sendingResponse) (hpending : m.ErrorPending)
    (hcloses : ErrorCloses m) :
    (stepPhase router m).conn.phase = .closed ∨
      (stepPhase router m).conn.phase = .sendingResponse ∧ (stepPhase router m).ErrorPending := by
  obtain ⟨evs, hturn, hlog⟩ := stepPhase_turn router hwf (by rw [hphase]; simp)
  obtain ⟨hquiet, hsends | hclosed | ⟨hkeep, hless⟩⟩ := hturn.sending hphase
  · obtain ⟨keepAlive, text, hlast⟩ := hpending
    refine .inr ⟨hsends, keepAlive, text, ?_⟩
    rw [← lastStaged_visible, hlog, lastStaged_append_quiet _ hquiet, lastStaged_visible, hlast]
  · exact .inl hclosed
  · exact absurd (hcloses hphase hpending hkeep) (Nat.not_le.mpr hless)

theorem TraceApart.turn (h : TraceApart router ts m) (hwf : m.conn.WellFormed)
    (hopen : m.conn.phase ≠ .closed)
    (hsuffix : m.conn.mem.reqBuf.contents <:+ received m.io.log) (hcloses : ErrorCloses m) :
    TraceApart router (ts ++ [m]) (stepPhase router m) := by
  obtain ⟨evs, hturn, hlog, hstages⟩ := stepPhase_stages router hwf hopen
  obtain ⟨hmono, hstrict⟩ := stepPhase_position router hwf hopen hsuffix
  have hidle : m.Answers router → ¬ m.conn.phase.Sends := by
    rintro ⟨byError, hstaged⟩
    obtain ⟨keepAlive, text, hmem⟩ := (hstages byError).mp hstaged
    exact (hturn.staged hwf hmem).1
  have hsending : ∀ a ∈ ts, a.Stages router true →
      m.conn.phase = .sendingResponse ∧ m.ErrorPending := fun a ha herror =>
    (h.errored a ha herror).resolve_left hopen
  refine ⟨?_, ?_, ?_⟩
  · apply List.pairwise_append.mpr
    refine ⟨h.apart, List.pairwise_singleton _ _, ?_⟩
    intro a ha b hb
    obtain rfl := List.mem_singleton.mp hb
    constructor
    · intro hanswers hanswers'
      apply h.behind _ a ha hanswers
      intro a' ha' herror
      exact hidle hanswers' (.inl (hsending a' ha' herror).1)
    · intro herror
      rw [(hsending a ha herror).1]
      simp
  · intro hnone a ha hanswers
    rcases List.mem_append.mp ha with ha | ha
    · have hless := h.behind (fun a' ha' => hnone a' (List.mem_append_left _ ha')) a ha hanswers
      omega
    · obtain rfl := List.mem_singleton.mp ha
      obtain ⟨byError, hstaged⟩ := hanswers
      cases byError with
      | true => exact absurd hstaged (hnone a (List.mem_append_right _ (List.mem_singleton_self a)))
      | false => exact hstrict hstaged
  · intro a ha herror
    rcases List.mem_append.mp ha with ha | ha
    · obtain ⟨hphase, hpending⟩ := hsending a ha herror
      exact stepPhase_errorPending router hwf hphase hpending hcloses
    · obtain rfl := List.mem_singleton.mp ha
      obtain ⟨keepAlive, text, hmem⟩ := (hstages true).mp herror
      obtain ⟨-, ⟨-, hphase, outs, hevs⟩ | ⟨hby, -⟩⟩ := hturn.staged hwf hmem
      · refine .inr ⟨hphase, keepAlive, text, ?_⟩
        rw [← lastStaged_visible, hlog, hevs, ← List.append_assoc]
        exact lastStaged_append_staged _ _ _ _
      · cases hby

theorem Trace.apart (h : Trace router ErrorCloses m₀ ts m) (hwf : m₀.conn.WellFormed)
    (hsuffix : m₀.conn.mem.reqBuf.contents <:+ received m₀.io.log) : TraceApart router ts m := by
  induction h with
  | start => exact ⟨.nil, (fun _ a ha => by cases ha), (fun a ha => by cases ha)⟩
  | wake h w hopen ih => exact ⟨ih.apart, ih.behind, ih.errored⟩
  | turn h hopen hcloses ih =>
    exact ih.turn (h.reaches.wellFormed hwf) hopen (h.reaches.contents_suffix hwf hsuffix) hcloses

/-- For every run in which no error response is sent on a connection that will be kept. -/
theorem answered_once (router : Router σ) (slot : Connection) (backing backingCap : ℕ)
    (newFd : ℤ) (world : World σ) (ts : List (Machine σ)) (m : Machine σ)
    (h : Trace router ErrorCloses (.ofSlot slot backing backingCap newFd world) ts m) :
    ts.Pairwise fun a b =>
      (a.Answers router → b.Answers router → a.position < b.position) ∧
        (a.Stages router true → b.conn.phase ≠ .readingRequest) :=
  (h.apart (Machine.ofSlot_wellFormed slot backing backingCap newFd world)
    List.nil_suffix).apart

/-- A client whose first line is not a request. -/
def badClient : Machine Unit :=
  newClient.wake { recvs := [.data (ascii "BAD" ++ CRLF ++ CRLF)], sends := [.accepted 1000] }

def badAnswered : Machine Unit := stepPhase {} badClient

theorem badClient_trace : Trace {} ErrorCloses newClient [badClient] badAnswered := by
  have hwake : Trace {} ErrorCloses newClient [] badClient := .wake .start _ (by decide)
  have hopen : badClient.conn.phase = .readingRequest := rfl
  exact hwake.turn (by rw [hopen]; simp) fun hphase => by
    rw [hopen] at hphase
    cases hphase

theorem answered_once_bad :
    [badClient, badAnswered].Pairwise fun a b =>
      (a.Answers {} → b.Answers {} → a.position < b.position) ∧
        (a.Stages {} true → b.conn.phase ≠ .readingRequest) := by
  have hopen : badAnswered.conn.phase ≠ .closed := by decide +kernel
  have hcloses : ErrorCloses badAnswered := by
    intro _ _ hkeep
    exact absurd hkeep (by decide +kernel)
  exact answered_once {} {} 4096 HTTP_CONN_ARENA_SIZE 5 { handlers := () } _ _
    (badClient_trace.turn hopen hcloses)

/-! ## The head that is answered again -/

/-- The connection when the error response is out: it reads a head again. -/
def gzipAgain : Machine Unit := stepPhase {} gzipAnswered

theorem gzipAgain_reading : gzipAgain.conn.phase = .readingRequest := by
  rw [gzipAgain]
  exact gzipAnswered_kept

theorem gzipAgain_trace :
    Trace {} (fun _ => True) newClient [gzipClient, gzipAnswered] gzipAgain := by
  have hwake : Trace {} (fun _ => True) newClient [] gzipClient := .wake .start _ (by decide)
  have hopen : gzipClient.conn.phase = .readingRequest := rfl
  have hanswered : Trace {} (fun _ => True) newClient [gzipClient] gzipAnswered :=
    hwake.turn (by rw [hopen]; simp) trivial
  exact hanswered.turn gzipAnswered_open trivial

theorem gzipAgain_wellFormed : gzipAgain.conn.WellFormed :=
  gzipAgain_trace.reaches.wellFormed (Machine.ofSlot_wellFormed _ _ _ _ _)

theorem gzipClient_stages : gzipClient.Stages {} true := by
  have hwf : gzipClient.conn.WellFormed := Machine.ofSlot_wellFormed {} 4096 HTTP_CONN_ARENA_SIZE 5
    ({ handlers := () } : World Unit)
  have hopen : gzipClient.conn.phase = .readingRequest := rfl
  have hpost : (stepPhase {} gzipClient).conn.phase = .sendingResponse := by decide +kernel
  exact stages_of_head {} hwf hopen hpost

theorem gzipAgain_stages : gzipAgain.Stages {} true := by
  have hpost : (stepPhase {} gzipAgain).conn.phase = .sendingResponse := by decide +kernel
  exact stages_of_head {} gzipAgain_wellFormed gzipAgain_reading hpost

/-- The rejected head is still buffered, and is parsed and answered again. -/
theorem error_answered_again :
    Trace {} (fun _ => True) newClient [gzipClient, gzipAnswered, gzipAgain]
        (stepPhase {} gzipAgain) ∧
      gzipClient.Stages {} true ∧ gzipAgain.conn.phase = .readingRequest ∧
      gzipAgain.conn.mem.reqBuf.contents = gzipHead ∧ gzipAgain.Stages {} true ∧
      gzipAgain.position = gzipClient.position := by
  have hopen : gzipAgain.conn.phase ≠ .closed := by
    rw [gzipAgain_reading]
    simp
  have hcontents : gzipAgain.conn.mem.reqBuf.contents = gzipHead := by decide +kernel
  have hposition : gzipAgain.position = gzipClient.position := by decide +kernel
  exact ⟨gzipAgain_trace.turn hopen trivial, gzipClient_stages, gzipAgain_reading, hcontents,
    gzipAgain_stages, hposition⟩

end HttpServer
