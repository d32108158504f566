import HttpServer.HeadTracking
import HttpServer.Persistence

/-!
# HEAD requests

`method_parse` does not know `HEAD`, so a request with that method never gets past
its head: it is answered with an error, and the body of that error is sent along.
-/

namespace HttpServer

variable {σ : Type*} {router : Router σ} {m m' start : Machine σ} {text : Bytes}

/-! ## The first response -/

def firstStaged (log : List Event) : Option Event := (log.filter Event.isStaged).head?

theorem firstStaged_append (log log' : List Event) :
    firstStaged (log ++ log') = (firstStaged log).or (firstStaged log') := by
  rw [firstStaged, List.filter_append, List.head?_append]
  rfl

theorem firstStaged_visible (log : List Event) : firstStaged (visible log) = firstStaged log := by
  rw [firstStaged, filter_isStaged_visible]
  rfl

theorem firstStaged_map_recv (outs : List RecvOutcome) :
    firstStaged (outs.map Event.recv) = none := by
  unfold firstStaged
  rw [List.filter_eq_nil_iff.mpr]
  · rfl
  · intro e he
    obtain ⟨o, -, rfl⟩ := List.mem_map.mp he
    simp [Event.isStaged]

/-- In a run from `start` that has received `input`, and perhaps more, `text` is the first
response. -/
def Answers (router : Router σ) (start : Machine σ) (input text : Bytes) : Prop :=
  ∃ m byError keepAlive, Reaches router (fun _ => True) start m ∧ input <+: received m.io.log ∧
    firstStaged m.io.log = some (.staged byError keepAlive (some text))

/-- A response up to and including its first empty line. -/
def responseHead (text : Bytes) : Bytes :=
  match memmem text HEADER_END with
  | some terminator => text.take (terminator + 4)
  | none => text

/-! ## A head that is read -/

/-- The text of an error response, with the body that belongs to it. -/
def CannedError (text : Option Bytes) : Prop :=
  ∃ status cap now, text = (responseSerialize (responseErrorFromStatus status) cap false now).result

theorem Machine.errorBegin_canned (m : Machine σ) (status : ParseStatus) :
    ∃ text, CannedError text ∧
      (m.errorBegin status).2.io.log = m.io.log ++ [.staged true false text] := by
  obtain ⟨now, hout, hlog⟩ := responseSerializeNow_spec (responseErrorFromStatus status)
    m.conn.mem.respBuf.cap false m.io
  refine ⟨_, ⟨status, m.conn.mem.respBuf.cap, now, rfl⟩, ?_⟩
  rw [← hlog, ← hout]
  rfl

/-- The three ways on from a read of a head: nothing happens yet, an error is staged, or the head is
accepted. -/
theorem stepHeaderRead_cases {m : Machine σ} (hb : m.conn.mem.reqBuf.Backed) :
    ∃ outs, m.conn.mem.reqBuf.Read outs m.headerRead.mem.reqBuf ∧
      (((stepHeaderRead m).1 = .readingRequest ∨ (stepHeaderRead m).1 = .closed) ∧
          (stepHeaderRead m).2.conn = m.headerRead ∧
          visible (stepHeaderRead m).2.io.log = visible m.io.log ++ outs.map .recv ∨
        (∃ text, CannedError text ∧
          visible (stepHeaderRead m).2.io.log =
            visible m.io.log ++ (outs.map .recv ++ [.staged true false text])) ∨
        ∃ terminator verdict read,
          memmem m.headerRead.mem.reqBuf.contents HEADER_END = some terminator ∧
          headAccept m.headerRead (terminator + 4) = (verdict, read) ∧
          (∀ status, verdict ≠ .error status) ∧
          visible (stepHeaderRead m).2.io.log = visible m.io.log ++ outs.map .recv) := by
  obtain ⟨outs, hread, hlog, hend, -⟩ := connRecvHeader_spec m.conn.fd m.io hb
  refine ⟨outs, hread, ?_⟩
  unfold stepHeaderRead Machine.headerRead
  generalize connRecvHeader m.conn.fd m.conn.mem.reqBuf m.io = result at hread hlog hend ⊢
  obtain ⟨⟨status, total, bodyStart⟩, buf, io⟩ := result
  dsimp only at hread hlog hend ⊢
  have error : ∀ (m₁ : Machine σ) status, visible m₁.io.log = visible io.log →
      ∃ text, CannedError text ∧ visible (m₁.errorBegin status).2.io.log =
        visible m.io.log ++ (outs.map .recv ++ [.staged true false text]) := by
    intro m₁ status hsame
    obtain ⟨text, hcanned, hstaged⟩ := m₁.errorBegin_canned status
    exact ⟨text, hcanned, by rw [hstaged, visible_append, hsame, hlog, List.append_assoc,
      visible_staged]⟩
  cases status with
  | hasMore => exact .inl ⟨.inl rfl, rfl, hlog⟩
  | peerClosed => exact .inl ⟨.inr rfl, rfl, hlog⟩
  | ioError => exact .inl ⟨.inr rfl, rfl, hlog⟩
  | tooLarge => exact .inr (.inl (error _ _ rfl))
  | ok =>
    obtain ⟨terminator, hfind, rfl⟩ := hend
    dsimp only [Machine.assert]
    generalize haccept : headAccept { m.conn with mem.reqBuf := buf } (terminator + 4) = accepted
    obtain ⟨verdict, read⟩ := accepted
    cases verdict with
    | error status => exact .inr (.inl (error _ _ (visible_assert io _)))
    | send100 =>
      exact .inr (.inr ⟨terminator, _, _, hfind, haccept, by simp, (visible_assert io _).trans hlog⟩)
    | dispatch =>
      refine .inr (.inr ⟨terminator, _, _, hfind, haccept, by simp, ?_⟩)
      exact ((visible_assert _ _).trans (visible_assert io _)).trans hlog

/-! ## The method is not known -/

theorem httpMethodShow_head? {method : HttpMethod} (h : method ∈ requestMethods) :
    (httpMethodShow method).head? ≠ some 72 := by
  simp only [requestMethods, List.mem_cons, List.not_mem_nil, or_false] at h
  rcases h with rfl | rfl | rfl | rfl <;> decide

/-- No method that is accepted begins like `HEAD`. -/
theorem RequestHead.head?_ne {head : Bytes} {req : HttpRequest} (h : RequestHead head req) :
    head.head? ≠ some 72 := by
  obtain ⟨line, fields, rfl, hline, -⟩ := h.split
  have hmethod := httpMethodShow_head? hline.method
  have hne : httpMethodShow req.requestLine.method ≠ [] := by
    cases req.requestLine.method <;> decide
  obtain ⟨c, rest, hshow⟩ := List.exists_cons_of_ne_nil hne
  rw [hline.split, hshow]
  rw [hshow] at hmethod
  exact hmethod

theorem headAccept_error_of_head? {conn read : Connection} {terminator : ℕ} {verdict : HeadVerdict}
    (hfresh : conn.reqParsed = {}) (hhead : conn.mem.reqBuf.contents.head? = some 72)
    (haccept : headAccept conn (terminator + 4) = (verdict, read)) :
    ∃ status, verdict = .error status := by
  by_contra hnone
  have hne : ∀ status, verdict ≠ .error status := fun status heq => hnone ⟨status, heq⟩
  have hparsed := ((headAccept_spec haccept).2 hne).parsed
  rw [hfresh] at hparsed
  generalize hparse : requestParse conn.mem.reqBuf.contents {} = parsed at hparsed
  obtain ⟨res, req⟩ := parsed
  obtain ⟨n, hn, hreq, -⟩ := requestParse_sound hparse hparsed
  refine hreq.head?_ne ?_
  obtain ⟨front, hfront⟩ := hreq.terminated
  cases hcontents : conn.mem.reqBuf.contents with
  | nil => simp [hcontents] at hhead
  | cons c rest =>
    rw [hcontents] at hhead hfront
    cases n with
    | zero => simp [CRLF] at hfront
    | succ n => exact hhead

/-! ## Runs that begin with HEAD -/

/-- Nothing has been answered, and everything received is still buffered. -/
structure Unanswered (m : Machine σ) : Prop where
  phase : m.conn.phase = .readingRequest ∨ m.conn.phase = .closed
  quiet : firstStaged m.io.log = none
  buffered : m.conn.mem.reqBuf.contents = received m.io.log

/-- The first response is an error response. -/
def AnsweredByError (m : Machine σ) : Prop :=
  ∃ text, firstStaged m.io.log = some (.staged true false text) ∧ CannedError text

/-- The turn of a connection that has not answered yet. -/
theorem Unanswered.turn (router : Router σ) (h : Unanswered m) (hwf : m.conn.WellFormed)
    (htracked : m.conn.HeadTracked) (hopen : m.conn.phase ≠ .closed)
    (hhead : (received (stepPhase router m).io.log).head? = some 72 ∨
      received (stepPhase router m).io.log = []) :
    Unanswered (stepPhase router m) ∨ AnsweredByError (stepPhase router m) := by
  have hphase : m.conn.phase = .readingRequest := h.phase.resolve_right hopen
  have hstep : stepConn router m = stepHeaderRead m := by simp only [stepConn, hphase]
  have hnone : firstStaged [.step m.conn (stepPhase router m).conn] = none := rfl
  have hlog := stepPhase_log router m
  rw [hstep] at hlog
  obtain ⟨outs, hread, hcases⟩ := stepHeaderRead_cases (m := m) hwf.backed
  have hcontents : m.headerRead.mem.reqBuf.contents =
      received m.io.log ++ received (outs.map Event.recv) := by
    rw [HttpBuffer.contents_of_read hread, h.buffered]
  have receives : visible (stepHeaderRead m).2.io.log = visible m.io.log ++ outs.map .recv →
      received (stepPhase router m).io.log =
        received m.io.log ++ received (outs.map Event.recv) := by
    intro hquiet
    have hstepNone : received [.step m.conn (stepPhase router m).conn] = [] := rfl
    rw [hlog, received_append, hstepNone, List.append_nil, ← received_visible, hquiet,
      received_append, received_visible]
  rcases hcases with ⟨hwaits, hconn, hquiet⟩ | ⟨text, hcanned, hstaged⟩ |
      ⟨terminator, verdict, read, hfind, haccept, hne, hquiet⟩
  · left
    refine ⟨?_, ?_, ?_⟩
    · rw [stepPhase_conn, hstep]
      exact hwaits
    · rw [hlog, firstStaged_append, hnone, ← firstStaged_visible, hquiet, firstStaged_append,
        firstStaged_visible, h.quiet, firstStaged_map_recv]
      rfl
    · rw [receives hquiet, ← hcontents, stepPhase_conn, hstep, hconn]
  · right
    refine ⟨text, ?_, hcanned⟩
    rw [hlog, firstStaged_append, hnone, ← firstStaged_visible, hstaged, firstStaged_append,
      firstStaged_append, firstStaged_visible, h.quiet, firstStaged_map_recv]
    rfl
  · exfalso
    rw [receives hquiet, ← hcontents] at hhead
    have hhead : m.headerRead.mem.reqBuf.contents.head? = some 72 := by
      refine hhead.resolve_right fun hnil => ?_
      rw [hnil] at hfind
      cases hfind
    obtain ⟨status, rfl⟩ := headAccept_error_of_head?
      (show m.headerRead.reqParsed = {} from htracked.fresh hphase) hhead haccept
    exact hne status rfl

theorem AnsweredByError.turn (router : Router σ) (h : AnsweredByError m)
    (hwf : m.conn.WellFormed) (hopen : m.conn.phase ≠ .closed) :
    AnsweredByError (stepPhase router m) := by
  obtain ⟨text, hfirst, hcanned⟩ := h
  obtain ⟨evs, -, hlog⟩ := stepPhase_turn router hwf hopen
  refine ⟨text, ?_, hcanned⟩
  rw [← firstStaged_visible, hlog, List.append_assoc, firstStaged_append, firstStaged_visible,
    hfirst]
  rfl

/-- Whoever sends a request that begins like `HEAD` gets an error response first. -/
theorem Reaches.answeredByError (h : Reaches router (fun _ => True) start m)
    (hwf : start.conn.WellFormed) (htracked : start.conn.HeadTracked) (hstart : Unanswered start)
    (hhead : (received m.io.log).head? = some 72) : Unanswered m ∨ AnsweredByError m := by
  have grows : ∀ a b : Machine σ, Reaches router (fun _ => True) start a →
      Next router (fun _ => True) a b → received a.io.log <+: received b.io.log := by
    intro a b ha hnext
    have hgrows := Reaches.visible_prefix (.single hnext) (ha.wellFormed hwf)
    obtain ⟨more, hmore⟩ := hgrows
    refine ⟨received more, ?_⟩
    rw [← received_visible b.io.log, ← hmore, received_append, received_visible]
  refine Runs.invariant (fun m => (received m.io.log).head? = some 72 ∨ received m.io.log = [] →
    Unanswered m ∨ AnsweredByError m) h (fun _ => .inl hstart) (fun a b ha ih hnext hb => ?_)
    (.inl hhead)
  have hgrows := grows a b ha hnext
  have hbefore : Unanswered a ∨ AnsweredByError a := by
    refine ih ?_
    cases hreceived : received a.io.log with
    | nil => exact .inr rfl
    | cons c rest =>
      rw [hreceived] at hgrows
      obtain ⟨more, hmore⟩ := hgrows
      rw [← hmore] at hb
      simpa using hb
  have hwf' := Reaches.wellFormed ha hwf
  cases hnext with
  | wake w hopen =>
    rcases hbefore with hquiet | hanswered
    · exact .inl ⟨hquiet.phase, hquiet.quiet, hquiet.buffered⟩
    · exact .inr hanswered
  | turn hopen =>
    rcases hbefore with hquiet | hanswered
    · exact hquiet.turn router hwf' (Reaches.headTracked ha hwf htracked) hopen hb
    · exact .inr (hanswered.turn router hwf' hopen)

/-! ## The bytes of the answer -/

/-- An error response goes on behind its first empty line. -/
theorem cannedError_text (h : CannedError (some text)) :
    ∃ front body, text = front ++ HEADER_END ++ body ∧ body ≠ [] := by
  obtain ⟨status, cap, now, htext⟩ := h
  obtain rfl := (responseSerialize_holds _ _ _ _).result htext.symm
  have hbody : bodyText (responseErrorFromStatus status) ≠ [] ∧
      ∃ line, framingText (responseErrorFromStatus status) = line ++ CRLF := by
    cases status <;> exact ⟨by decide, _, rfl⟩
  obtain ⟨hne, line, hline⟩ := hbody
  refine ⟨responseHeadText (responseErrorFromStatus status) false now ++ line, _, ?_, hne⟩
  have hend : HEADER_END = CRLF ++ CRLF := rfl
  rw [responseText, hline, hend]
  simp only [List.append_assoc]

theorem ne_responseHead {front body : Bytes} (hbody : body ≠ [])
    (htext : text = front ++ HEADER_END ++ body) (answer : Bytes) : text ≠ responseHead answer := by
  intro heq
  have hpos := List.length_pos_iff.mpr hbody
  have hoccurs : range text front.length (front.length + 4) = CRLF ++ CRLF := by
    rw [range_eq_take, htext, List.append_assoc, List.drop_left, Nat.add_sub_cancel_left]
    rfl
  have hlen := congrArg List.length htext
  rw [List.length_append, List.length_append, show HEADER_END.length = 4 from rfl] at hlen
  unfold responseHead at heq
  cases hfind : memmem answer HEADER_END with
  | none =>
    rw [hfind] at heq
    dsimp only at heq
    subst heq
    have hinfix : HEADER_END <:+: text := ⟨front, body, htext.symm⟩
    obtain ⟨terminator, hsome⟩ := memmem_of_infix hinfix
    rw [hfind] at hsome
    cases hsome
  | some terminator =>
    have hblank := firstBlank_of_memmem hfind
    rw [hfind] at heq
    dsimp only at heq
    rw [heq, List.length_take, Nat.min_eq_left hblank.inside] at hlen
    rw [heq, range_take (by omega)] at hoccurs
    have hfirst := hblank.first _ hoccurs
    omega

/-- No request with HEAD is answered with a bare head. -/
theorem not_answers_responseHead (router : Router σ) (slot : Connection)
    (backing backingCap : ℕ) (newFd : ℤ) (world : World σ) (rest answer : Bytes) :
    ¬ Answers router (.ofSlot slot backing backingCap newFd world) (ascii "HEAD" ++ rest)
      (responseHead answer) := by
  rintro ⟨m, byError, keepAlive, hreaches, ⟨more, hinput⟩, hfirst⟩
  have hhead : (received m.io.log).head? = some 72 := by
    rw [← hinput]
    rfl
  have hstart : Unanswered (Machine.ofSlot slot backing backingCap newFd world) :=
    ⟨.inl rfl, rfl, rfl⟩
  rcases hreaches.answeredByError (Machine.ofSlot_wellFormed ..) (Machine.ofSlot_headTracked ..)
      hstart hhead with hquiet | ⟨text, hfirst', hcanned⟩
  · rw [hquiet.quiet] at hfirst
    cases hfirst
  · rw [hfirst] at hfirst'
    obtain ⟨-, -, rfl⟩ := Event.staged.inj (Option.some.inj hfirst')
    obtain ⟨front, body, htext, hbody⟩ := cannedError_text hcanned
    exact ne_responseHead hbody htext answer rfl

/-- The request line behind the method and the header lines are the same for both methods; whatever
answers GET, its head answers HEAD. -/
def MirrorsGet (router : Router σ) (start : Machine σ) (rest : Bytes) : Prop :=
  ∀ answer, Answers router start (ascii "GET" ++ rest) answer →
    Answers router start (ascii "HEAD" ++ rest) (responseHead answer)

theorem head_never_mirrors (router : Router σ) (slot : Connection) (backing backingCap : ℕ)
    (newFd : ℤ) (world : World σ) (rest answer : Bytes)
    (hanswer : Answers router (.ofSlot slot backing backingCap newFd world) (ascii "GET" ++ rest)
      answer) :
    ¬ MirrorsGet router (.ofSlot slot backing backingCap newFd world) rest := fun hmirrors =>
  not_answers_responseHead router slot backing backingCap newFd world rest answer
    (hmirrors answer hanswer)

/-- The part of a plain request behind its method. -/
def plainRest : Bytes := ascii " / HTTP/1.1" ++ CRLF ++ ascii "Host: a" ++ CRLF ++ CRLF

/-- The machine after the turn that reads the head. -/
def plainRead (method : Bytes) : Machine Unit :=
  stepPhase {} (newClient.wake { recvs := [.data (method ++ plainRest)] })

theorem plainRead_reaches (method : Bytes) :
    Reaches {} (fun _ => True) newClient (plainRead method) := by
  refine .tail (.single (.wake _ ?_)) (.turn ?_ trivial)
  · simp [newClient, Machine.ofSlot, connectionInit]
  · simp [newClient, Machine.ofSlot, connectionInit, Machine.wake]

def plainAnswer : Bytes := responseText (responseErrorFromStatus .notFound) true 0

theorem plainRead_get : (plainRead (ascii "GET")).conn.phase = .building := by decide +kernel

theorem plainRead_get_answers : Answers {} newClient (ascii "GET" ++ plainRest) plainAnswer := by
  have hreceived : ascii "GET" ++ plainRest <+:
      received (stepPhase {} (plainRead (ascii "GET"))).io.log := by decide +kernel
  have hfirst : firstStaged (stepPhase {} (plainRead (ascii "GET"))).io.log =
      some (.staged false true (some plainAnswer)) := by decide +kernel
  have hopen : (plainRead (ascii "GET")).conn.phase ≠ .closed := by
    rw [plainRead_get]
    simp
  exact ⟨_, _, _, (plainRead_reaches _).tail (.turn hopen trivial), hreceived, hfirst⟩

theorem plainRead_head_answers : Answers {} newClient (ascii "HEAD" ++ plainRest)
    (responseText (responseErrorFromStatus .badRequest) false 0) := by
  have hreceived : ascii "HEAD" ++ plainRest <+: received (plainRead (ascii "HEAD")).io.log := by
    decide +kernel
  have hfirst : firstStaged (plainRead (ascii "HEAD")).io.log = some (.staged true false
      (some (responseText (responseErrorFromStatus .badRequest) false 0))) := by decide +kernel
  exact ⟨_, _, _, plainRead_reaches _, hreceived, hfirst⟩

theorem head_never_mirrors_plain : ¬ MirrorsGet {} newClient plainRest :=
  head_never_mirrors {} {} 4096 HTTP_CONN_ARENA_SIZE 5 { handlers := () } plainRest plainAnswer
    plainRead_get_answers

/-- GET is answered with 404, and HEAD with 400 and a body. -/
theorem head_not_mirrored :
    Answers {} newClient (ascii "GET" ++ plainRest) plainAnswer ∧
      Answers {} newClient (ascii "HEAD" ++ plainRest)
        (responseText (responseErrorFromStatus .badRequest) false 0) ∧
      ¬ MirrorsGet {} newClient plainRest := by
  refine ⟨plainRead_get_answers, plainRead_head_answers, fun hmirrors => ?_⟩
  exact not_answers_responseHead {} {} 4096 HTTP_CONN_ARENA_SIZE 5 { handlers := () } plainRest
    plainAnswer (hmirrors plainAnswer plainRead_get_answers)

end HttpServer
