import HttpServer.HeadAcceptance
import HttpServer.Networking
import HttpServer.Runs
import HttpServer.Turns

/-!
# Runs of a connection

Well-formedness is preserved by every turn, so every run of an accepted connection
consists of turns. A call of `connection_step_process` makes turns until one stays
in its phase or closes the connection.
-/

namespace HttpServer

open Relation

variable {σ : Type*} {pre post conn : Connection} {evs : List Event}

/-! ## Well-formedness is preserved -/

theorem Connection.HeadRead.bodyStart_le (h : conn.HeadRead) :
    conn.bodyStart ≤ conn.mem.reqBuf.contents.length := by
  obtain ⟨terminator, hfind, hstart⟩ := h
  rw [hstart]
  exact memmem_add_length_le hfind

theorem Connection.HeadRead.length_headBytes (h : conn.HeadRead) :
    conn.headBytes.length = conn.bodyStart := by
  rw [Connection.headBytes, List.length_take, Nat.min_eq_left h.bodyStart_le]

/-- More bytes are received behind the head. -/
theorem Connection.HeadRead.received {conn' : Connection} {got : Bytes} (h : conn.HeadRead)
    (hreceived : conn.mem.reqBuf.Received got conn'.mem.reqBuf)
    (hstart : conn'.bodyStart = conn.bodyStart) : conn'.HeadRead := by
  obtain ⟨terminator, hfind, hbody⟩ := h
  refine ⟨terminator, ?_, hstart.trans hbody⟩
  rw [hreceived.contents]
  exact memmem_append hfind got

theorem ConnPhase.not_afterHead {phase : ConnPhase} (h : phase = .readingRequest ∨
    phase = .sendingResponse ∨ phase = .sendingResponseStream ∨ phase = .closed) :
    ¬ phase.AfterHead := by
  unfold AfterHead
  rcases h with rfl | rfl | rfl | rfl <;> simp

/-- Outside the phases after a head nothing but the buffer counts. -/
theorem Connection.WellFormed.of_backed (hb : conn.mem.reqBuf.Backed)
    (hphase : ¬ conn.phase.AfterHead) : conn.WellFormed where
  backed := hb
  head h := absurd h hphase
  interim h := absurd (.inl h) hphase
  chunked h := absurd (.inr (.inr (.inl h))) hphase

/-- In two phases after a head the head is all that counts besides. -/
theorem Connection.WellFormed.of_head (hb : conn.mem.reqBuf.Backed) (hread : conn.HeadRead)
    (hphase : conn.phase = .building ∨ conn.phase = .readingBodyCl) : conn.WellFormed where
  backed := hb
  head _ := hread
  interim h := by rcases hphase with hphase | hphase <;> rw [hphase] at h <;> cases h
  chunked h := by rcases hphase with hphase | hphase <;> rw [hphase] at h <;> cases h

theorem Connection.dispatched_wellFormed (hb : conn.mem.reqBuf.Backed) (hread : conn.HeadRead) :
    conn.dispatched.WellFormed := by
  unfold dispatched phaseBodyDispatch
  split
  · refine ⟨hb, fun _ => hread, (fun h => by cases h), fun _ => ⟨hread.bodyStart_le, ?_⟩⟩
    exact
      { backed := hb
        dechunked_backed := Nat.zero_le _
        contents := (List.take_append_drop _ _).symm
        resumes := .refl _ _ _ }
  · split
    · exact .of_head hb hread (.inl rfl)
    · exact .of_head hb hread (.inr rfl)

theorem requestConsume_reqBuf (conn : Connection) (hb : conn.mem.reqBuf.Backed) :
    (requestConsume conn).mem.reqBuf.Backed ∧
      (requestConsume conn).mem.reqBuf.contents =
        if 0 < conn.nextReqOffset then conn.mem.reqBuf.contents.drop conn.nextReqOffset else [] := by
  unfold requestConsume
  dsimp only
  by_cases hnext : 0 < conn.nextReqOffset
  · rw [if_pos hnext, if_pos hnext]
    have hlen : ((conn.mem.reqBuf.storage.drop conn.nextReqOffset).take
        (conn.mem.reqBuf.size - conn.nextReqOffset)).length =
        conn.mem.reqBuf.size - conn.nextReqOffset := by
      rw [List.length_take, List.length_drop]
      have := hb
      unfold HttpBuffer.Backed at this
      omega
    constructor
    · simp only [HttpBuffer.Backed, HttpBuffer.store, List.take_zero, List.nil_append,
        List.length_append, hlen]
      omega
    · simp only [HttpBuffer.contents, HttpBuffer.store, List.take_zero, List.nil_append]
      rw [List.take_append_of_le_length hlen.ge, List.take_take, Nat.min_self,
        List.drop_take]
  · rw [if_neg hnext, if_neg hnext]
    exact ⟨Nat.zero_le _, rfl⟩

theorem responseComplete_reqBuf (conn : Connection) :
    (responseComplete conn).2.mem.reqBuf = conn.mem.reqBuf := by
  unfold responseComplete
  dsimp only
  split <;> rfl

theorem Connection.completed_phase (conn : Connection) :
    conn.completed.phase = .closed ∨ conn.completed.phase = .readingRequest := by
  have hphase : conn.completed.phase = (responseComplete conn).1 := rfl
  rw [hphase, responseComplete_fst]
  split
  · exact .inl rfl
  · exact .inr rfl

theorem Connection.completed_not_afterHead (conn : Connection) :
    ¬ conn.completed.phase.AfterHead := by
  rcases conn.completed_phase with h | h <;> rw [h] <;> exact ConnPhase.not_afterHead (by simp)

theorem Connection.HeadFrame.mem {read : Connection} (h : conn.HeadFrame read) :
    read.mem = conn.mem := by
  obtain ⟨req, start, keep, coding, len, rfl⟩ := h
  rfl

theorem Connection.HeadFrame.requests {read : Connection} (h : conn.HeadFrame read) :
    read.requests = conn.requests := by
  obtain ⟨req, start, keep, coding, len, rfl⟩ := h
  rfl

theorem StreamEnd.reqBuf {phase : ConnPhase} (h : StreamEnd conn evs phase post) :
    post.mem.reqBuf = conn.mem.reqBuf := by
  cases h with
  | waits h =>
    obtain ⟨resp, st, producer, rfl⟩ := h
    rfl
  | closes h =>
    obtain ⟨resp, st, producer, rfl⟩ := h
    rfl
  | done h =>
    obtain ⟨resp, st, producer, rfl⟩ := h
    rw [responseComplete_reqBuf]

theorem StreamEnd.not_afterHead {phase : ConnPhase} (h : StreamEnd conn evs phase post) :
    ¬ phase.AfterHead := by
  cases h with
  | waits => exact ConnPhase.not_afterHead (by simp)
  | closes => exact ConnPhase.not_afterHead (by simp)
  | @done sent => exact sent.completed_not_afterHead

/-- The reader that wants more stands behind the head again. -/
theorem Connection.ReadsChunked.ready {outs : List RecvOutcome} {r : ChunkedRead}
    {res : ReadBodyResult} (h : conn.ReadsChunked outs r res) (hread : conn.HeadRead)
    (hmore : res.status = .hasMore) :
    ({ conn.withChunked r with phase := .readingBodyChunked } : Connection).ChunkedReady := by
  have hend := h.post.result
  rw [ChunkedReadEnd, hmore] at hend
  have hcontents := h.post.contents
  have hhead : r.reqBuf.contents.take conn.bodyStart = conn.headBytes := by
    rw [hcontents, ← hread.length_headBytes, List.take_left]
  have hrest : r.reqBuf.contents.drop conn.bodyStart =
      conn.restBytes ++ outs.flatMap RecvOutcome.bytes := by
    rw [hcontents, ← hread.length_headBytes, List.drop_left]
  refine ⟨?_, ?_⟩
  · show conn.bodyStart ≤ r.reqBuf.contents.length
    rw [hcontents, List.length_append, hread.length_headBytes]
    exact Nat.le_add_right _ _
  · show ChunkedReading (r.reqBuf.contents.take conn.bodyStart)
      (r.reqBuf.contents.drop conn.bodyStart) r
    rw [hhead, hrest]
    exact hend.2.2

/-- The cursor into the interim response stays inside it. -/
theorem advance_le {st : SendSt} {o : SendOutcome} (hsent : st.sent ≤ CONTINUE_100.length)
    (hclip : o.clip (continue100Buf.contents.drop st.sent).length = o) :
    (st.advance o).sent ≤ CONTINUE_100.length := by
  cases o with
  | accepted n =>
    have hlen : continue100Buf.contents.length = CONTINUE_100.length :=
      congrArg List.length (List.take_length : continue100Buf.contents = CONTINUE_100)
    have hn : min n (continue100Buf.contents.drop st.sent).length = n :=
      SendOutcome.accepted.inj hclip
    rw [List.length_drop, hlen] at hn
    show st.sent + n ≤ _
    omega
  | _ => exact hsent

theorem Turn.wellFormed (h : Turn pre evs post) (hwf : pre.WellFormed) : post.WellFormed := by
  cases h with
  | headWaits hphase hread => exact .of_backed hread.received.backed (ConnPhase.not_afterHead (by simp))
  | headCloses hphase hread => exact .of_backed hread.received.backed (ConnPhase.not_afterHead (by simp))
  | headTooLong hphase hread =>
    exact .of_backed hread.received.backed (ConnPhase.not_afterHead (by simp))
  | headRejected hphase hread hfind haccept =>
    have hmem := (headAccept_spec haccept).1.mem
    refine .of_backed ?_ (ConnPhase.not_afterHead (by simp))
    simp only [Connection.answering, hmem]
    exact hread.received.backed
  | @headContinue outs buf terminator read hphase hread hfind haccept =>
    obtain ⟨hframe, haccepts⟩ := headAccept_spec haccept
    have hbuf : read.mem.reqBuf = buf := by rw [hframe.mem]
    refine ⟨hbuf.symm ▸ hread.received.backed, fun _ => ⟨terminator, ?_, ?_⟩,
      fun _ => Nat.zero_le _, fun h => by cases h⟩
    · exact hbuf.symm ▸ hfind
    · exact (haccepts (by simp)).start
  | @headAccepted outs buf terminator read hphase hread hfind haccept =>
    obtain ⟨hframe, haccepts⟩ := headAccept_spec haccept
    have hbuf : read.mem.reqBuf = buf := by rw [hframe.mem]
    exact Connection.dispatched_wellFormed (hbuf.symm ▸ hread.received.backed)
      ⟨terminator, hbuf.symm ▸ hfind, (haccepts (by simp)).start⟩
  | @continueWaits o hphase hclip =>
    refine ⟨hwf.backed, fun _ => hwf.head (.inl hphase), fun _ => ?_, fun h => by cases h⟩
    exact advance_le (hwf.interim hphase) hclip
  | continueSent hphase =>
    exact Connection.dispatched_wellFormed hwf.backed (hwf.head (.inl hphase))
  | continueCloses => exact .of_backed hwf.backed (ConnPhase.not_afterHead (by simp))
  | lengthWaits hphase hread =>
    exact .of_head hread.received.backed
      ((hwf.head (.inr (.inl hphase))).received hread.received rfl) (.inr rfl)
  | lengthDone hphase hread =>
    exact .of_head hread.received.backed
      ((hwf.head (.inr (.inl hphase))).received hread.received rfl) (.inl rfl)
  | lengthFails hphase hread =>
    exact .of_backed hread.received.backed (ConnPhase.not_afterHead (by simp))
  | chunkedWaits hphase hread hmore =>
    have hhead := hwf.head (.inr (.inr (.inl hphase)))
    exact ⟨hread.read.received.backed, fun _ => hhead.received hread.read.received rfl,
      (fun h => by cases h), fun _ => hread.ready hhead hmore⟩
  | chunkedDone hphase hread =>
    exact .of_head hread.read.received.backed
      ((hwf.head (.inr (.inr (.inl hphase)))).received hread.read.received rfl) (.inl rfl)
  | chunkedFails hphase hread =>
    exact .of_backed hread.read.received.backed
      (ConnPhase.not_afterHead (by simp))
  | @builtBuffered arena resp producer text hphase hstaged =>
    exact .of_backed (requestConsume_reqBuf (pre.prepared arena resp producer) hwf.backed).1
      (ConnPhase.not_afterHead (by simp))
  | @builtStream arena resp producer text hphase hstaged =>
    exact .of_backed (requestConsume_reqBuf (pre.prepared arena resp producer) hwf.backed).1
      (ConnPhase.not_afterHead (by simp))
  | sendWaits => exact .of_backed hwf.backed (ConnPhase.not_afterHead (by simp))
  | sendDone =>
    refine .of_backed ?_ (Connection.completed_not_afterHead _)
    unfold Connection.completed
    rw [responseComplete_reqBuf]
    exact hwf.backed
  | sendCloses => exact .of_backed hwf.backed (ConnPhase.not_afterHead (by simp))
  | streamTurns hphase hsends hend =>
    refine .of_backed ?_ hend.not_afterHead
    rw [hend.reqBuf]
    exact hwf.backed

/-! ## The loop of `connection_step_process` -/

/-- How many phases a request still takes. -/
def ConnPhase.turns : ConnPhase → ℕ
  | .readingRequest => 6
  | .sending100 => 5
  | .readingBodyCl | .readingBodyChunked => 4
  | .building => 3
  | .sendingResponse | .sendingResponseStream => 2
  | .closed => 0

def Connection.rank (conn : Connection) : ℕ :=
  8 * (HTTP_MAX_REQUESTS - conn.requests) + conn.phase.turns

theorem Connection.rank_lt_fuel (conn : Connection) : conn.rank < stepProcessFuel conn := by
  have hturns : conn.phase.turns ≤ 6 := by cases conn.phase <;> decide
  unfold rank stepProcessFuel
  omega

theorem Connection.dispatched_phase (conn : Connection) :
    conn.dispatched.phase = .readingBodyChunked ∨ conn.dispatched.phase = .building ∨
      conn.dispatched.phase = .readingBodyCl := by
  unfold dispatched phaseBodyDispatch
  split
  · exact .inl rfl
  · split
    · exact .inr (.inl rfl)
    · exact .inr (.inr rfl)

theorem Connection.dispatched_requests (conn : Connection) :
    conn.dispatched.requests = conn.requests := by
  unfold dispatched phaseBodyDispatch
  split
  · rfl
  · split <;> rfl

theorem Connection.dispatched_rank (conn : Connection) :
    conn.dispatched.rank ≤ 8 * (HTTP_MAX_REQUESTS - conn.requests) + 4 := by
  have hturns : conn.dispatched.phase.turns ≤ 4 := by
    rcases conn.dispatched_phase with h | h | h <;> rw [h] <;> decide
  unfold rank
  rw [dispatched_requests]
  omega

/-- A completed response closes the connection or leaves room for another request. -/
theorem Connection.completed_rank (conn : Connection) (hopen : conn.completed.phase ≠ .closed) :
    conn.completed.rank < 8 * (HTTP_MAX_REQUESTS - conn.requests) + 2 := by
  have hphase : conn.completed.phase = (responseComplete conn).1 := rfl
  have hrequests : conn.completed.requests = conn.requests + 1 := responseComplete_requests conn
  rw [hphase, responseComplete_fst] at hopen
  split at hopen
  · exact absurd rfl hopen
  · next hkeep =>
    simp only [Bool.or_eq_true, decide_eq_true_eq, not_or] at hkeep
    have hturns : conn.completed.phase.turns ≤ 6 := by
      cases conn.completed.phase <;> decide
    unfold rank
    rw [hrequests]
    omega

/-- A turn that leaves its phase without closing brings the request forward. -/
theorem Turn.rank_lt (h : Turn pre evs post) (hleft : post.phase ≠ pre.phase)
    (hopen : post.phase ≠ .closed) : post.rank < pre.rank := by
  cases h with
  | headWaits hphase => exact absurd hphase.symm hleft
  | headCloses => exact absurd rfl hopen
  | headTooLong hphase =>
    simp only [Connection.rank, Connection.answering, hphase, ConnPhase.turns]
    omega
  | headRejected hphase hread hfind haccept =>
    have hrequests := (headAccept_spec haccept).1.requests
    simp only [Connection.rank, Connection.answering, hphase, ConnPhase.turns, hrequests]
    omega
  | headContinue hphase hread hfind haccept =>
    have hrequests := (headAccept_spec haccept).1.requests
    simp only [Connection.rank, hphase, ConnPhase.turns, hrequests]
    omega
  | @headAccepted outs buf terminator read hphase hread hfind haccept =>
    have hrequests : read.requests = pre.requests := (headAccept_spec haccept).1.requests
    have hdispatched := read.dispatched_rank
    rw [hrequests] at hdispatched
    refine lt_of_le_of_lt hdispatched ?_
    simp only [Connection.rank, hphase, ConnPhase.turns]
    omega
  | continueWaits hphase => exact absurd hphase.symm hleft
  | continueSent hphase =>
    refine lt_of_le_of_lt (Connection.dispatched_rank _) ?_
    simp only [Connection.rank, hphase, ConnPhase.turns]
    omega
  | continueCloses => exact absurd rfl hopen
  | lengthWaits hphase => exact absurd hphase.symm hleft
  | lengthDone hphase =>
    simp only [Connection.rank, hphase, ConnPhase.turns]
    omega
  | lengthFails hphase =>
    simp only [Connection.rank, Connection.answering, hphase, ConnPhase.turns]
    omega
  | chunkedWaits hphase => exact absurd hphase.symm hleft
  | chunkedDone hphase =>
    simp only [Connection.rank, Connection.withChunked, hphase, ConnPhase.turns]
    omega
  | chunkedFails hphase =>
    simp only [Connection.rank, Connection.withChunked, Connection.answering, hphase,
      ConnPhase.turns]
    omega
  | builtBuffered hphase =>
    simp only [Connection.rank, Connection.answering, requestConsume, Connection.prepared, hphase,
      ConnPhase.turns]
    omega
  | builtStream hphase =>
    simp only [Connection.rank, requestConsume, Connection.prepared, hphase, ConnPhase.turns]
    omega
  | sendWaits hphase => exact absurd hphase.symm hleft
  | sendDone hphase =>
    have hlower := Connection.completed_rank _ hopen
    simp only [Connection.rank, hphase, ConnPhase.turns] at hlower ⊢
    exact hlower
  | sendCloses => exact absurd rfl hopen
  | streamTurns hphase hsends hend =>
    cases hend with
    | waits => exact absurd hphase.symm hleft
    | closes => exact absurd rfl hopen
    | @done sent hstreamed =>
      have hlower := sent.completed_rank hopen
      obtain ⟨resp, st, producer, rfl⟩ := hstreamed
      simp only [Connection.rank, hphase, ConnPhase.turns] at hlower ⊢
      exact hlower

/-! ## Reachable machines -/

/-- What can happen to an open connection: a wake-up, or a turn that starts where `allowed`
holds. -/
inductive Next (router : Router σ) (allowed : Machine σ → Prop) : Machine σ → Machine σ → Prop where
  | wake {m} (w : Wake σ) (hopen : m.conn.phase ≠ .closed) : Next router allowed m (m.wake w)
  | turn {m} (hopen : m.conn.phase ≠ .closed) (hallowed : allowed m) :
      Next router allowed m (stepPhase router m)

def Reaches (router : Router σ) (allowed : Machine σ → Prop) : Machine σ → Machine σ → Prop :=
  ReflTransGen (Next router allowed)

variable {router : Router σ} {allowed : Machine σ → Prop} {m m' : Machine σ}

theorem Reaches.wellFormed (h : Reaches router allowed m m') (hwf : m.conn.WellFormed) :
    m'.conn.WellFormed := by
  refine Runs.invariant (fun m => m.conn.WellFormed) h hwf fun a b _ ha hnext => ?_
  cases hnext with
  | wake w => exact ha
  | turn hopen =>
    obtain ⟨evs, hturn, -⟩ := stepPhase_turn router ha hopen
    exact hturn.wellFormed ha

/-- A turn after which `connection_step_process` returns. -/
def Rests (m m' : Machine σ) : Prop := m'.conn.phase = m.conn.phase ∨ m'.conn.phase = .closed

instance : DecidableRel (Rests (σ := σ)) := fun _ _ => instDecidableOr

theorem stepProcessLoop_eq (router : Router σ) (fuel : ℕ) (m : Machine σ) :
    stepProcessLoop router fuel m = Runs.toRest (stepPhase router) Rests fuel m := by
  induction fuel generalizing m with
  | zero => rfl
  | succ fuel ih =>
    rw [stepProcessLoop, Runs.toRest]
    by_cases hrests : Rests m (stepPhase router m)
    · have hstop : ¬ ((stepPhase router m).conn.phase ≠ m.conn.phase ∧
          (stepPhase router m).conn.phase ≠ .closed) := by
        rintro ⟨hphase, hopen⟩
        exact hrests.elim hphase hopen
      rw [if_pos hrests, if_neg hstop]
    · have hgo := not_or.mp hrests
      rw [if_neg hrests, if_pos hgo, ih]

/-- `connection_step_process` makes turns up to one that stays in its phase or closes the
connection; its fuel is enough for that. -/
theorem connectionStepProcess_rests (router : Router σ) (hwf : m.conn.WellFormed)
    (hopen : m.conn.phase ≠ .closed) :
    ∃ m', Reaches router (fun _ => True) m m' ∧ m'.conn.WellFormed ∧ m'.conn.phase ≠ .closed ∧
      Rests m' (stepPhase router m') ∧
      connectionStepProcess router m = stepPhase router m' := by
  have turn : ∀ m' : Machine σ, m'.conn.WellFormed → m'.conn.phase ≠ .closed →
      ¬ Rests m' (stepPhase router m') → (stepPhase router m').conn.WellFormed ∧
        (stepPhase router m').conn.rank < m'.conn.rank := by
    intro m' hwf' hopen' hgoes
    obtain ⟨hleft, hstays⟩ := not_or.mp hgoes
    obtain ⟨evs, hturn, -⟩ := stepPhase_turn router hwf' hopen'
    exact ⟨hturn.wellFormed hwf', hturn.rank_lt hleft hstays⟩
  obtain ⟨m', ⟨hreaches, hwf', hopen'⟩, hrests, heq⟩ :=
    Runs.toRest_rests (stepPhase router) Rests
      (fun m' => Reaches router (fun _ => True) m m' ∧ m'.conn.WellFormed ∧
        m'.conn.phase ≠ .closed)
      (fun m' => m'.conn.rank)
      (fun m' ⟨hreaches, hwf', hopen'⟩ hgoes =>
        ⟨hreaches.tail (.turn hopen' trivial), (turn m' hwf' hopen' hgoes).1,
          (not_or.mp hgoes).2⟩)
      (fun m' ⟨_, hwf', hopen'⟩ hgoes => (turn m' hwf' hopen' hgoes).2)
      ⟨.refl, hwf, hopen⟩ m.conn.rank_lt_fuel
  exact ⟨m', hreaches, hwf', hopen', hrests, (stepProcessLoop_eq router _ m).trans heq⟩

theorem serve_cons (router : Router σ) (m : Machine σ) (w : Wake σ) (wakes : List (Wake σ))
    (hopen : m.conn.phase ≠ .closed) :
    serve router m (w :: wakes) = serve router (connectionStepProcess router (m.wake w)) wakes :=
  if_neg hopen

theorem serve_closed (router : Router σ) (m : Machine σ) (wakes : List (Wake σ))
    (hclosed : m.conn.phase = .closed) : serve router m wakes = m := by
  cases wakes with
  | nil => rfl
  | cons w wakes => exact if_pos hclosed

theorem connectionStepProcess_reaches (router : Router σ) (w : Wake σ) (hwf : m.conn.WellFormed)
    (hopen : m.conn.phase ≠ .closed) :
    Reaches router (fun _ => True) m (connectionStepProcess router (m.wake w)) := by
  obtain ⟨m', hreaches, -, hopen', -, heq⟩ := connectionStepProcess_rests router (m := m.wake w)
    hwf hopen
  rw [heq]
  exact .trans (.single (.wake w hopen)) (hreaches.tail (.turn hopen' trivial))

/-- Runs only add to the log. -/
theorem Reaches.visible_prefix (h : Reaches router allowed m m') (hwf : m.conn.WellFormed) :
    visible m.io.log <+: visible m'.io.log := by
  refine Runs.invariant (fun m' => visible m.io.log <+: visible m'.io.log) h
    (List.prefix_refl _) fun a b hreaches ha hnext => ?_
  cases hnext with
  | wake w => exact ha
  | turn hopen =>
    obtain ⟨evs, -, hlog⟩ := stepPhase_turn router (Reaches.wellFormed hreaches hwf) hopen
    rw [hlog, List.append_assoc]
    exact ha.trans (List.prefix_append _ _)

/-- The machine of a slot that has just been given to a client. -/
def Machine.ofSlot (slot : Connection) (backing backingCap : ℕ) (newFd : ℤ) (world : World σ) :
    Machine σ :=
  { conn := connectionInit slot backing backingCap newFd, world := world }

theorem Machine.ofSlot_wellFormed (slot : Connection) (backing backingCap : ℕ) (newFd : ℤ)
    (world : World σ) : (Machine.ofSlot slot backing backingCap newFd world).conn.WellFormed :=
  .of_backed (Nat.zero_le _) (ConnPhase.not_afterHead (.inl rfl))

/-- A client that has just been accepted on a fresh slot. -/
def newClient : Machine Unit := .ofSlot {} 4096 HTTP_CONN_ARENA_SIZE 5 { handlers := () }

end HttpServer
