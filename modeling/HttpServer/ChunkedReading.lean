import HttpServer.ChunkedGrammar
import HttpServer.Receiving

/-!
# Reading a chunked body from the socket

Between two calls `conn_recv_body_chunked` stands where the decoder got to in the
body bytes received so far. What it returns depends on those bytes alone, not on
how `recv` cut them.
-/

namespace HttpServer

open IncrementalDecoder

/-- The decoder and the bytes written so far. -/
def ChunkedRead.dechunk (r : ChunkedRead) : Dechunk := ⟨r.st.dec, r.dechunked.contents⟩

/-- Behind `head` the bytes `body` have been received; the decoder stands somewhere in them, in
a state from which any continuation is read as if from the beginning. -/
structure ChunkedReading (head body : Bytes) (r : ChunkedRead) : Prop where
  backed : r.reqBuf.Backed
  dechunked_backed : r.dechunked.Backed
  contents : r.reqBuf.contents = head ++ body
  resumes : Resumes (chunkStep r.dechunked.cap) {} body r.dechunk r.st.consumed

/-- The part of the drain's result that is returned at once. -/
def drainResult (bodyStart : ℕ) : Outcome Dechunk ParseStatus → Option ReadBodyResult
  | .more _ _ => none
  | .done _ n => some { status := .ok, nextReqOffset := bodyStart + n }
  | .fail e => some { status := if e = .payloadTooLarge then .tooLarge else .badData }

/-- The decoder state and the decoded bytes are those of an outcome; a failure says nothing about
them. -/
def DrainEnd (dechunked : HttpBuffer) (st : ChunkedBodySt) :
    Outcome Dechunk ParseStatus → Prop
  | .more s n => dechunked.contents = s.out ∧ st = ⟨n, s.dec⟩
  | .done s n => dechunked.contents = s.out ∧ st = ⟨n, s.dec⟩
  | .fail _ => True

variable {head body : Bytes} {r : ChunkedRead} {o : Outcome Dechunk ParseStatus}

/-- One turn of the inner loop. -/
theorem chunkDrain_succ (reqBuf : HttpBuffer) (bodyStart fuel : ℕ) {dechunked : HttpBuffer}
    (hbacked : dechunked.Backed) (st : ChunkedBodySt) :
    ∃ dechunked' st', dechunked'.Backed ∧ dechunked'.cap = dechunked.cap ∧
      dechunked'.address = dechunked.address ∧
      match chunkStep dechunked.cap ⟨st.dec, dechunked.contents⟩
        (reqBuf.contents.drop (bodyStart + st.consumed)) with
      | .next s n => dechunked'.contents = s.out ∧ st' = ⟨st.consumed + n, s.dec⟩ ∧
          chunkDrain reqBuf bodyStart (fuel + 1) dechunked st =
            chunkDrain reqBuf bodyStart fuel dechunked' st'
      | .more s n => dechunked'.contents = s.out ∧ st' = ⟨st.consumed + n, s.dec⟩ ∧
          chunkDrain reqBuf bodyStart (fuel + 1) dechunked st = (none, dechunked', st')
      | .done s n => dechunked'.contents = s.out ∧ st' = ⟨st.consumed + n, s.dec⟩ ∧
          chunkDrain reqBuf bodyStart (fuel + 1) dechunked st =
            (some { status := .ok, nextReqOffset := bodyStart + (st.consumed + n) },
              dechunked', st')
      | .fail e => chunkDrain reqBuf bodyStart (fuel + 1) dechunked st =
            (some { status := if e = .payloadTooLarge then .tooLarge else .badData },
              dechunked', st') := by
  have hmore : ∀ s' n, chunkStep dechunked.cap ⟨st.dec, dechunked.contents⟩
      (reqBuf.contents.drop (bodyStart + st.consumed)) = .more s' n → s'.dec.phase ≠ .done := by
    intro s' n h
    obtain ⟨heq, hne⟩ := chunkStep_more_phase h
    rwa [heq]
  revert hmore
  simp only [chunkDrain, chunkStep, hbacked.length_contents]
  generalize chunkAdvance st.dec (reqBuf.contents.drop (bodyStart + st.consumed))
    (dechunked.cap - dechunked.size) = p
  obtain ⟨cr, dec, written⟩ := p
  dsimp only
  intro hmore
  refine ⟨dechunked.append written, ⟨st.consumed + cr.parseResult.next.getD 0, dec⟩,
    hbacked.append written, rfl, rfl, ?_⟩
  have hcontents := hbacked.contents_append written
  cases hst : cr.parseResult.status with
  | ok =>
    by_cases hdone : dec.phase = .done
    · simp [hdone, hcontents]
    · simp [hdone, hcontents]
  | incomplete =>
    have hne : dec.phase ≠ .done := by
      rw [hst] at hmore
      exact hmore _ _ rfl
    simp [hne, hcontents]
  | _ => simp

/-- The inner loop computes the outcome of a run over the buffered bytes. -/
theorem chunkDrain_of_run {reqBuf dechunked : HttpBuffer} {bodyStart fuel : ℕ}
    (st : ChunkedBodySt) (hbacked : dechunked.Backed)
    (hrun : Run (chunkStep dechunked.cap) ⟨st.dec, dechunked.contents⟩
      (reqBuf.contents.drop (bodyStart + st.consumed)) o)
    (hfuel : chunkRank ⟨st.dec, dechunked.contents⟩
      (reqBuf.contents.drop (bodyStart + st.consumed)) < fuel) :
    ∃ dechunked' st', chunkDrain reqBuf bodyStart fuel dechunked st =
        (drainResult bodyStart (o.shift st.consumed), dechunked', st') ∧
      dechunked'.Backed ∧ dechunked'.cap = dechunked.cap ∧
      dechunked'.address = dechunked.address ∧ DrainEnd dechunked' st' (o.shift st.consumed) := by
  induction fuel generalizing dechunked st o with
  | zero => exact absurd hfuel (Nat.not_lt_zero _)
  | succ fuel ih =>
    obtain ⟨dechunked', st', hbacked', hcap, haddress, hturn⟩ :=
      chunkDrain_succ reqBuf bodyStart fuel hbacked st
    cases hrun with
    | more h =>
      rw [h] at hturn
      obtain ⟨hout, hst, hdrain⟩ := hturn
      exact ⟨dechunked', st', hdrain, hbacked', hcap, haddress, hout, hst⟩
    | done h =>
      rw [h] at hturn
      obtain ⟨hout, hst, hdrain⟩ := hturn
      exact ⟨dechunked', st', hdrain, hbacked', hcap, haddress, hout, hst⟩
    | fail h =>
      rw [h] at hturn
      exact ⟨dechunked', st', hturn, hbacked', hcap, haddress, trivial⟩
    | @next _ s₁ _ n o h rest =>
      have hrank := chunkRank_decreases _ _ _ _ h
      rw [h] at hturn
      obtain ⟨hout, rfl, hdrain⟩ := hturn
      rw [List.drop_drop, Nat.add_assoc] at rest hrank
      have hstate : s₁ = ⟨s₁.dec, dechunked'.contents⟩ := by rw [hout]
      rw [hstate, ← hcap] at rest
      rw [hstate] at hrank
      obtain ⟨d₂, st₂, hdrain₂, hbacked₂, hcap₂, haddress₂, hend⟩ :=
        ih ⟨st.consumed + n, s₁.dec⟩ hbacked' rest (lt_of_lt_of_le hrank (Nat.le_of_lt_succ hfuel))
      rw [Outcome.shift_shift]
      exact ⟨d₂, st₂, hdrain.trans hdrain₂, hbacked₂, hcap₂.trans hcap,
        haddress₂.trans haddress, hend⟩

/-! ## The outer loop -/

/-- Draining gets to the outcome of the whole body received so far. -/
theorem ChunkedReading.drain (h : ChunkedReading head body r) :
    ∃ o dechunked st, Run (chunkStep r.dechunked.cap) {} body o ∧
      chunkDrain r.reqBuf head.length (r.reqBuf.size + 2) r.dechunked r.st =
        (drainResult head.length o, dechunked, st) ∧
      dechunked.Backed ∧ dechunked.cap = r.dechunked.cap ∧
      dechunked.address = r.dechunked.address ∧ DrainEnd dechunked st o ∧
      ∀ s n, o = .more s n →
        ChunkedReading head body { r with dechunked := dechunked, st := st } := by
  have hinput : r.reqBuf.contents.drop (head.length + r.st.consumed) =
      body.drop r.st.consumed := by
    rw [h.contents, ← List.drop_drop, List.drop_left]
  obtain ⟨o₁, hrun⟩ := exists_chunkRun r.dechunked.cap r.dechunk (body.drop r.st.consumed)
  have hrank : chunkRank r.dechunk (body.drop r.st.consumed) < r.reqBuf.size + 2 := by
    have hsize := h.backed.length_contents
    rw [h.contents, List.length_append] at hsize
    unfold chunkRank
    rw [List.length_drop]
    split <;> omega
  obtain ⟨dechunked, st, hdrain, hbacked, hcap, haddress, hend⟩ :=
    chunkDrain_of_run r.st h.dechunked_backed (hinput.symm ▸ hrun) (hinput.symm ▸ hrank)
  refine ⟨o₁.shift r.st.consumed, dechunked, st, h.resumes.run hrun, hdrain, hbacked, hcap,
    haddress, hend, ?_⟩
  intro s n ho
  cases o₁ with
  | more s₁ k =>
    obtain ⟨hcontents, rfl⟩ := hend
    refine ⟨h.backed, hbacked, h.contents, ?_⟩
    dsimp only
    rw [hcap]
    have hstate : ChunkedRead.dechunk { r with
        dechunked := dechunked, st := ⟨r.st.consumed + k, s₁.dec⟩ } = s₁ := by
      simp [ChunkedRead.dechunk, hcontents]
    rw [hstate]
    exact h.resumes.drain (chunkStep_resumable _) hrun
  | done => cases ho
  | fail => cases ho

/-- More body bytes are stored. -/
theorem ChunkedReading.recv (h : ChunkedReading head body r) (got : Bytes) :
    ChunkedReading head (body ++ got) { r with reqBuf := r.reqBuf.append got } where
  backed := h.backed.append got
  dechunked_backed := h.dechunked_backed
  contents := by
    show (r.reqBuf.append got).contents = _
    rw [h.backed.contents_append, h.contents, List.append_assoc]
  resumes := h.resumes.append got

/-- What the reader returns when it stops with `body` received. -/
def ChunkedReadEnd (head body : Bytes) (res : ReadBodyResult) (r : ChunkedRead) : Prop :=
  match res.status with
  | .ok => ∃ s n, Run (chunkStep r.dechunked.cap) {} body (.done s n) ∧
      res.nextReqOffset = head.length + n ∧ r.dechunked.contents = s.out ∧ r.st = ⟨n, s.dec⟩
  | .hasMore => (∃ s n, Run (chunkStep r.dechunked.cap) {} body (.more s n) ∧
      r.dechunked.contents = s.out ∧ r.st = ⟨n, s.dec⟩) ∧ r.reqBuf.size < r.reqBuf.cap ∧
      ChunkedReading head body r
  | .badData => ∃ e, e ≠ .payloadTooLarge ∧ Run (chunkStep r.dechunked.cap) {} body (.fail e)
  | .tooLarge => Run (chunkStep r.dechunked.cap) {} body (.fail .payloadTooLarge) ∨
      (∃ s n, Run (chunkStep r.dechunked.cap) {} body (.more s n)) ∧ r.reqBuf.cap ≤ r.reqBuf.size
  | .peerClosed | .ioError => ∃ s n, Run (chunkStep r.dechunked.cap) {} body (.more s n)

/-- What a call leaves behind: `got` has been received behind `body`. -/
structure ChunkedReadPost (head body got : Bytes) (r r' : ChunkedRead) (res : ReadBodyResult) :
    Prop where
  backed : r'.reqBuf.Backed
  dechunked_backed : r'.dechunked.Backed
  contents : r'.reqBuf.contents = head ++ (body ++ got)
  cap : r'.reqBuf.cap = r.reqBuf.cap
  address : r'.reqBuf.address = r.reqBuf.address
  dechunked_cap : r'.dechunked.cap = r.dechunked.cap
  dechunked_address : r'.dechunked.address = r.dechunked.address
  result : ChunkedReadEnd head (body ++ got) res r'

theorem ChunkedReadPost.refl {res : ReadBodyResult} {r' : ChunkedRead}
    (h : ChunkedReading head body r) (hreq : r'.reqBuf = r.reqBuf)
    (hbacked : r'.dechunked.Backed) (hcap : r'.dechunked.cap = r.dechunked.cap)
    (haddress : r'.dechunked.address = r.dechunked.address)
    (hend : ChunkedReadEnd head body res r') : ChunkedReadPost head body [] r r' res where
  backed := hreq ▸ h.backed
  dechunked_backed := hbacked
  contents := by rw [hreq, h.contents, List.append_nil]
  cap := by rw [hreq]
  address := by rw [hreq]
  dechunked_cap := hcap
  dechunked_address := haddress
  result := by rwa [List.append_nil]

theorem connRecvBodyChunkedLoop_stop {bodyStart : ℕ} {res : ReadBodyResult}
    {dechunked : HttpBuffer} {st : ChunkedBodySt} (recvs : List RecvOutcome) (log : List Event)
    (h : chunkDrain r.reqBuf bodyStart (r.reqBuf.size + 2) r.dechunked r.st =
      (some res, dechunked, st)) :
    connRecvBodyChunkedLoop bodyStart recvs r log =
      (res, { r with dechunked := dechunked, st := st }, recvs, log) := by
  cases recvs <;> rw [connRecvBodyChunkedLoop, h]

/-- The answers that need no further bytes. -/
theorem ChunkedReading.stop {dechunked : HttpBuffer} {st : ChunkedBodySt}
    (h : ChunkedReading head body r) (hrun : Run (chunkStep r.dechunked.cap) {} body o)
    (hbacked : dechunked.Backed) (hcap : dechunked.cap = r.dechunked.cap)
    (haddress : dechunked.address = r.dechunked.address) (hend : DrainEnd dechunked st o) :
    (∃ s n, o = .more s n) ∨
      ∃ res, drainResult head.length o = some res ∧ res.status.lastRecv = none ∧
        ChunkedReadPost head body [] r { r with dechunked := dechunked, st := st } res := by
  rw [← hcap] at hrun
  cases o with
  | more s n => exact .inl ⟨s, n, rfl⟩
  | done s n =>
    refine .inr ⟨_, rfl, rfl, .refl h rfl hbacked hcap haddress ?_⟩
    exact ⟨s, n, hrun, rfl, hend⟩
  | fail e =>
    refine .inr ⟨_, rfl, by dsimp only; split <;> rfl, .refl h rfl hbacked hcap haddress ?_⟩
    by_cases he : e = .payloadTooLarge
    · subst he
      exact .inl hrun
    · rw [if_neg he]
      exact ⟨e, he, hrun⟩

/-- What the outer loop has done when it returns. -/
def ChunkedLoopPost (head body : Bytes) (r : ChunkedRead) (recvs : List RecvOutcome)
    (log : List Event) :
    ReadBodyResult × ChunkedRead × List RecvOutcome × List Event → Prop
  | (res, r', rest, log') => ∃ outs, log' = log ++ outs.map Event.recv ∧
      RecvScript (r.reqBuf.cap - r.reqBuf.size) recvs rest outs ∧
      ChunkedReadPost head body (outs.flatMap RecvOutcome.bytes) r r' res ∧
      ∀ out ∈ res.status.lastRecv, outs.getLast? = some out

/-- A call of `recv` in front of what the loop does. -/
theorem ChunkedLoopPost.call {r₂ : ChunkedRead} {recvs : List RecvOutcome} {log : List Event}
    {o out : RecvOutcome} {result : ReadBodyResult × ChunkedRead × List RecvOutcome × List Event}
    (hclip : o.clip (r.reqBuf.cap - r.reqBuf.size) = out)
    (h : ChunkedLoopPost head (body ++ out.bytes) r₂ recvs (log ++ [.recv out]) result)
    (hcap : r₂.reqBuf.cap = r.reqBuf.cap) (haddress : r₂.reqBuf.address = r.reqBuf.address)
    (hsize : r₂.reqBuf.size = r.reqBuf.size + out.bytes.length)
    (hdcap : r₂.dechunked.cap = r.dechunked.cap)
    (hdaddress : r₂.dechunked.address = r.dechunked.address) :
    ChunkedLoopPost head body r (o :: recvs) log result := by
  obtain ⟨res, r', rest, log'⟩ := result
  obtain ⟨outs, hlog, hscript, hpost, hlast⟩ := h
  refine ⟨out :: outs, by rw [hlog]; simp, .cons hclip ?_, ?_, ?_⟩
  · rwa [hcap, hsize, Nat.sub_add_eq] at hscript
  · rw [List.flatMap_cons]
    exact
      { backed := hpost.backed
        dechunked_backed := hpost.dechunked_backed
        contents := by rw [hpost.contents, List.append_assoc]
        cap := hpost.cap.trans hcap
        address := hpost.address.trans haddress
        dechunked_cap := hpost.dechunked_cap.trans hdcap
        dechunked_address := hpost.dechunked_address.trans hdaddress
        result := by rw [← List.append_assoc]; exact hpost.result }
  · intro out' hout'
    rw [List.getLast?_cons, hlast out' hout']
    rfl

theorem connRecvBodyChunkedLoop_full {bodyStart : ℕ} {dechunked : HttpBuffer} {st : ChunkedBodySt}
    (recvs : List RecvOutcome) (log : List Event)
    (h : chunkDrain r.reqBuf bodyStart (r.reqBuf.size + 2) r.dechunked r.st =
      (none, dechunked, st)) (hfull : r.reqBuf.cap ≤ r.reqBuf.size) :
    connRecvBodyChunkedLoop bodyStart recvs r log =
      ({ status := .tooLarge }, { r with dechunked := dechunked, st := st }, recvs, log) := by
  cases recvs with
  | nil =>
    rw [connRecvBodyChunkedLoop, h]
    exact if_pos hfull
  | cons o recvs =>
    rw [connRecvBodyChunkedLoop, h]
    exact if_pos hfull

/-- When `recv` would be called the loop has returned, or it wants more and its buffer has room. -/
theorem ChunkedReading.turn (h : ChunkedReading head body r) (recvs : List RecvOutcome)
    (log : List Event) :
    ChunkedLoopPost head body r recvs log (connRecvBodyChunkedLoop head.length recvs r log) ∨
    ∃ dechunked st s n, chunkDrain r.reqBuf head.length (r.reqBuf.size + 2) r.dechunked r.st =
        (none, dechunked, st) ∧ r.reqBuf.size < r.reqBuf.cap ∧
      Run (chunkStep dechunked.cap) {} body (.more s n) ∧ DrainEnd dechunked st (.more s n) ∧
      ChunkedReading head body { r with dechunked := dechunked, st := st } ∧
      dechunked.cap = r.dechunked.cap ∧ dechunked.address = r.dechunked.address := by
  obtain ⟨oc, dechunked, st, hrun, hdrain, hbacked, hcap, haddress, hend, hmore⟩ := h.drain
  rcases h.stop hrun hbacked hcap haddress hend with ⟨s, n, rfl⟩ | ⟨res, hres, hne, hpost⟩
  · rw [← hcap] at hrun
    by_cases hfull : r.reqBuf.cap ≤ r.reqBuf.size
    · rw [connRecvBodyChunkedLoop_full recvs log hdrain hfull]
      exact .inl ⟨[], by simp, .stop _ _,
        .refl h rfl hbacked hcap haddress (.inr ⟨⟨s, n, hrun⟩, hfull⟩),
        by simp [ReadBodyStatus.lastRecv]⟩
    · exact .inr ⟨dechunked, st, s, n, hdrain, Nat.not_le.mp hfull, hrun, hend, hmore s n rfl,
        hcap, haddress⟩
  · rw [hres] at hdrain
    rw [connRecvBodyChunkedLoop_stop recvs log hdrain]
    exact .inl ⟨[], by simp, .stop _ _, hpost, by simp [hne]⟩

theorem connRecvBodyChunkedLoop_spec (recvs : List RecvOutcome) (log : List Event)
    (h : ChunkedReading head body r) :
    ChunkedLoopPost head body r recvs log
      (connRecvBodyChunkedLoop head.length recvs r log) := by
  induction recvs generalizing body r log with
  | nil =>
    rcases h.turn [] log with hpost | ⟨dechunked, st, s, n, hdrain, hroom, hrun, hend, hnext, hcap,
      haddress⟩
    · exact hpost
    rw [connRecvBodyChunkedLoop, hdrain]
    dsimp only
    rw [if_neg (Nat.not_le.mpr hroom)]
    refine ⟨[.again], rfl, .blocked _, .refl h rfl hnext.dechunked_backed hcap haddress ?_,
      by simp [ReadBodyStatus.lastRecv]⟩
    exact ⟨⟨s, n, hrun, hend⟩, hroom, hnext⟩
  | cons o recvs ih =>
    rcases h.turn (o :: recvs) log with hpost | ⟨dechunked, st, s, n, hdrain, hroom, hrun, hend,
      hnext, hcap, haddress⟩
    · exact hpost
    have hbacked := hnext.dechunked_backed
    rw [connRecvBodyChunkedLoop, hdrain]
    dsimp only
    rw [if_neg (Nat.not_le.mpr hroom)]
    generalize hclip : o.clip (r.reqBuf.cap - r.reqBuf.size) = out
    cases out with
    | data bytes =>
      cases bytes with
      | nil =>
        refine ⟨[.data []], rfl, .cons hclip (.stop _ _),
          .refl h rfl hbacked hcap haddress ?_, by simp [ReadBodyStatus.lastRecv]⟩
        exact ⟨s, n, hrun⟩
      | cons c got =>
        exact .call hclip (ih _ (hnext.recv (c :: got))) rfl rfl rfl hcap haddress
    | again =>
      refine ⟨[.again], rfl, .cons hclip (.stop _ _),
        .refl h rfl hbacked hcap haddress ?_, by simp [ReadBodyStatus.lastRecv]⟩
      exact ⟨⟨s, n, hrun, hend⟩, hroom, hnext⟩
    | interrupted =>
      have hsame : ChunkedReading head (body ++ RecvOutcome.interrupted.bytes) _ :=
        (List.append_nil body).symm ▸ hnext
      exact .call hclip (ih _ hsame) rfl rfl rfl hcap haddress
    | error =>
      refine ⟨[.error], rfl, .cons hclip (.stop _ _),
        .refl h rfl hbacked hcap haddress ?_, by simp [ReadBodyStatus.lastRecv]⟩
      exact ⟨s, n, hrun⟩

/-! ## Independence of segmentation -/

/-- Call the reader again, in the state it left behind, while it wants more and the script goes
on. -/
def connRecvBodyChunkedCalls (fd : ℤ) (bodyStart : ℕ) :
    ℕ → ChunkedRead → Io → ReadBodyResult × ChunkedRead × Io
  | 0, r, io => ({ status := .hasMore }, r, io)
  | calls + 1, r, io =>
    let (res, r, io) := connRecvBodyChunked fd bodyStart r io
    if res.status = .hasMore ∧ io.recvs ≠ [] then connRecvBodyChunkedCalls fd bodyStart calls r io
    else (res, r, io)

/-- A script that delivers bytes and blocks now and then, but does not end the stream. -/
def Delivers (recvs : List RecvOutcome) : Prop :=
  ∀ o ∈ recvs, o = .again ∨ o = .interrupted ∨ ∃ bytes, bytes ≠ [] ∧ o = .data bytes

/-- What the reader answers when the whole body has the outcome `o`; `full` says that the
request buffer has no room left. -/
def ChunkedVerdict (head : Bytes) (full : Prop) (o : Outcome Dechunk ParseStatus)
    (res : ReadBodyResult) (r : ChunkedRead) : Prop :=
  match o with
  | .done s n => res.status = .ok ∧ res.nextReqOffset = head.length + n ∧
      r.dechunked.contents = s.out ∧ r.st = ⟨n, s.dec⟩
  | .more s n => (full → res.status = .tooLarge) ∧
      (¬ full → res.status = .hasMore ∧ r.dechunked.contents = s.out ∧ r.st = ⟨n, s.dec⟩)
  | .fail e => res.status = if e = .payloadTooLarge then .tooLarge else .badData

variable {got rest : Bytes} {res : ReadBodyResult} {r' : ChunkedRead}

/-- A call that stopped for good has answered for everything that may still come. -/
theorem ChunkedReadPost.verdict (h : ChunkedReadPost head body got r r' res)
    (hlast : res.status.lastRecv = none ∨ res.status = .hasMore ∧ rest = [])
    (hroom : (head ++ (body ++ got ++ rest)).length ≤ r.reqBuf.cap)
    (hrun : Run (chunkStep r.dechunked.cap) {} (body ++ got ++ rest) o) :
    ChunkedVerdict head (r.reqBuf.cap ≤ (head ++ (body ++ got ++ rest)).length) o res r' := by
  have hresume := chunkStep_resumable r.dechunked.cap
  have hend := h.result
  have hsize := h.backed.length_contents
  rw [h.contents] at hsize
  rw [ChunkedReadEnd, h.dechunked_cap, h.cap] at hend
  cases hst : res.status with
  | ok =>
    rw [hst] at hend
    obtain ⟨s, n, hdone, hnext, hout, hst'⟩ := hend
    obtain rfl := (hresume.run_done_append hdone rest).unique hrun
    exact ⟨hst, hnext, hout, hst'⟩
  | hasMore =>
    rw [hst] at hend
    obtain ⟨⟨s, n, hmore, hout, hst'⟩, hlt, -⟩ := hend
    obtain rfl : rest = [] := by simpa [hst, ReadBodyStatus.lastRecv] using hlast
    rw [List.append_nil] at hrun ⊢
    obtain rfl := hmore.unique hrun
    refine ⟨fun hfull => absurd hfull (by omega), fun _ => ⟨hst, hout, hst'⟩⟩
  | badData =>
    rw [hst] at hend
    obtain ⟨e, hne, hfail⟩ := hend
    obtain rfl := (hresume.run_fail_append hfail rest).unique hrun
    exact hst.trans (if_neg hne).symm
  | tooLarge =>
    rw [hst] at hend
    rcases hend with hfail | ⟨⟨s, n, hmore⟩, hfull⟩
    · obtain rfl := (hresume.run_fail_append hfail rest).unique hrun
      exact hst.trans (if_pos rfl).symm
    · have hrest : rest = [] := by
        rw [← List.append_assoc, List.length_append] at hroom
        exact List.eq_nil_of_length_eq_zero (by omega)
      subst hrest
      rw [List.append_nil] at hrun ⊢
      obtain rfl := hmore.unique hrun
      exact ⟨fun _ => hst, fun hnot => absurd (hsize ▸ hfull) hnot⟩
  | peerClosed => simp [hst, ReadBodyStatus.lastRecv] at hlast
  | ioError => simp [hst, ReadBodyStatus.lastRecv] at hlast

theorem Delivers.lastRecv {recvs rest outs : List RecvOutcome} {room : ℕ}
    {status : ReadBodyStatus} (hdel : Delivers recvs) (hscript : RecvScript room recvs rest outs)
    (hroom : (recvs.flatMap RecvOutcome.bytes).length ≤ room)
    (hlast : ∀ out ∈ status.lastRecv, outs.getLast? = some out) :
    status.lastRecv = none ∨ status = .hasMore := by
  have hmem : ∀ out ∈ outs, out ≠ .data [] ∧ out ≠ .error := by
    intro out hout
    have hcase : out ∈ recvs ∨ out = .again := by
      rcases hscript.eq_append hroom with rfl | ⟨-, rfl⟩
      · exact .inl (List.mem_append_left _ hout)
      · simpa using hout
    rcases hcase with hin | rfl
    · rcases hdel out hin with rfl | rfl | ⟨bytes, hne, rfl⟩ <;> simp_all
    · simp
  cases status with
  | peerClosed => exact absurd rfl (hmem _ (List.mem_of_getLast? (hlast _ rfl))).1
  | ioError => exact absurd rfl (hmem _ (List.mem_of_getLast? (hlast _ rfl))).2
  | hasMore => exact .inr rfl
  | _ => exact .inl rfl

theorem connRecvBodyChunkedCalls_verdict (fd : ℤ) {calls : ℕ} {io : Io}
    (h : ChunkedReading head body r) (hdel : Delivers io.recvs)
    (hroom : (head ++ (body ++ io.recvs.flatMap RecvOutcome.bytes)).length ≤ r.reqBuf.cap)
    (hcalls : io.recvs.length < calls)
    (hrun : Run (chunkStep r.dechunked.cap) {} (body ++ io.recvs.flatMap RecvOutcome.bytes) o) :
    ChunkedVerdict head
      (r.reqBuf.cap ≤ (head ++ (body ++ io.recvs.flatMap RecvOutcome.bytes)).length) o
      (connRecvBodyChunkedCalls fd head.length calls r io).1
      (connRecvBodyChunkedCalls fd head.length calls r io).2.1 := by
  induction calls generalizing body r io with
  | zero => exact absurd hcalls (Nat.not_lt_zero _)
  | succ calls ih =>
    simp only [connRecvBodyChunkedCalls, connRecvBodyChunked, Io.assert_recvs]
    generalize hlog : (io.assert _).log = log
    have hspec := connRecvBodyChunkedLoop_spec io.recvs log h
    generalize connRecvBodyChunkedLoop head.length io.recvs r log = result at hspec
    obtain ⟨res, r', rest, log'⟩ := result
    obtain ⟨outs, -, hscript, hpost, hlast⟩ := hspec
    have hsize : r.reqBuf.size = (head ++ body).length := by
      rw [← h.contents, h.backed.length_contents]
    have hfit : (io.recvs.flatMap RecvOutcome.bytes).length ≤ r.reqBuf.cap - r.reqBuf.size := by
      rw [← List.append_assoc, List.length_append] at hroom
      omega
    have hbytes := hscript.bytes_eq hfit
    dsimp only
    by_cases hagain : res.status = .hasMore ∧ rest ≠ []
    · rw [if_pos hagain]
      have hend := hpost.result
      rw [ChunkedReadEnd, hagain.1] at hend
      have houts : outs ≠ [] := by
        rintro rfl
        simp [hagain.1, ReadBodyStatus.lastRecv] at hlast
      have hrecvs : io.recvs = outs ++ rest := by
        rcases hscript.eq_append hfit with heq | ⟨hnil, -⟩
        · exact heq
        · exact absurd hnil hagain.2
      rw [hbytes, ← List.append_assoc body] at hroom hrun ⊢
      rw [← hpost.dechunked_cap] at hrun
      rw [← hpost.cap] at hroom ⊢
      refine ih hend.2.2 (fun o ho => hdel o (hrecvs ▸ List.mem_append_right _ ho)) hroom ?_ hrun
      have := List.length_pos_iff.mpr houts
      rw [hrecvs, List.length_append] at hcalls
      dsimp only
      omega
    · rw [if_neg hagain]
      rw [hbytes, ← List.append_assoc body] at hroom hrun ⊢
      refine hpost.verdict ?_ hroom hrun
      rcases hdel.lastRecv hscript hfit hlast with hnone | hmore
      · exact .inl hnone
      · have hrest : rest = [] := not_not.mp fun hne => hagain ⟨hmore, hne⟩
        exact .inr ⟨hmore, by rw [hrest]; rfl⟩

/-- The whole body at once: everything that the script delivers is already buffered. -/
def ChunkedRead.withAll (r : ChunkedRead) (recvs : List RecvOutcome) : ChunkedRead :=
  { r with reqBuf := r.reqBuf.append (recvs.flatMap RecvOutcome.bytes) }

/-- Without a script there is nothing to call again for. -/
theorem connRecvBodyChunkedCalls_nil (fd : ℤ) (bodyStart calls : ℕ) (r : ChunkedRead) (io : Io)
    (hnil : io.recvs = []) :
    connRecvBodyChunkedCalls fd bodyStart (calls + 1) r io =
      connRecvBodyChunked fd bodyStart r io := by
  have hrest : (connRecvBodyChunked fd bodyStart r io).2.2.recvs = [] := by
    simp only [connRecvBodyChunked, Io.assert_recvs, hnil, connRecvBodyChunkedLoop]
    split
    · rfl
    · split <;> rfl
  rw [connRecvBodyChunkedCalls]
  dsimp only
  rw [if_neg fun h => h.2 hrest]

/-- The same status, and on `ok` and `hasMore` the same decoded bytes, decoder, number of used
bytes and offset of the next request. -/
def SameAnswer (cut whole : ReadBodyResult × ChunkedRead × Io) : Prop :=
  cut.1.status = whole.1.status ∧
    (cut.1.status = .ok ∨ cut.1.status = .hasMore →
      cut.2.1.dechunked.contents = whole.2.1.dechunked.contents ∧ cut.2.1.st = whole.2.1.st) ∧
    (cut.1.status = .ok → cut.1.nextReqOffset = whole.1.nextReqOffset)

theorem ChunkedVerdict.sameAnswer {full : Prop} {cut whole : ReadBodyResult × ChunkedRead × Io}
    (h : ChunkedVerdict head full o cut.1 cut.2.1)
    (h' : ChunkedVerdict head full o whole.1 whole.2.1) : SameAnswer cut whole := by
  cases o with
  | done s n =>
    obtain ⟨hst, hnext, hout, hdec⟩ := h
    obtain ⟨hst', hnext', hout', hdec'⟩ := h'
    exact ⟨hst.trans hst'.symm, fun _ => ⟨hout.trans hout'.symm, hdec.trans hdec'.symm⟩,
      fun _ => hnext.trans hnext'.symm⟩
  | more s n =>
    by_cases hfull : full
    · have hst := h.1 hfull
      exact ⟨hst.trans (h'.1 hfull).symm, by simp [hst], by simp [hst]⟩
    · obtain ⟨hst, hout, hdec⟩ := h.2 hfull
      obtain ⟨hst', hout', hdec'⟩ := h'.2 hfull
      exact ⟨hst.trans hst'.symm, fun _ => ⟨hout.trans hout'.symm, hdec.trans hdec'.symm⟩,
        by simp [hst]⟩
  | fail e =>
    have hst : cut.1.status = if e = .payloadTooLarge then .tooLarge else .badData := h
    refine ⟨hst.trans h'.symm, ?_, ?_⟩ <;> rw [hst] <;> split <;> simp

theorem connRecvBodyChunked_segmentation (fd : ℤ) (head buffered : Bytes) (r : ChunkedRead)
    (io : Io) (hbacked : r.reqBuf.Backed) (hcontents : r.reqBuf.contents = head ++ buffered)
    (hempty : r.dechunked.size = 0) (hst : r.st = {}) (hdel : Delivers io.recvs)
    (hroom : (head ++ (buffered ++ io.recvs.flatMap RecvOutcome.bytes)).length ≤ r.reqBuf.cap) :
    SameAnswer (connRecvBodyChunkedCalls fd head.length (io.recvs.length + 1) r io)
      (connRecvBodyChunked fd head.length (r.withAll io.recvs) { io with recvs := [] }) := by
  have hread : ChunkedReading head buffered r :=
    { backed := hbacked
      dechunked_backed := by rw [HttpBuffer.Backed, hempty]; exact Nat.zero_le _
      contents := hcontents
      resumes := by
        have hstart : r.dechunk = {} := by
          simp [ChunkedRead.dechunk, hst, HttpBuffer.contents, hempty]
        rw [hstart, hst]
        exact .refl _ _ _ }
  have hall := hread.recv (io.recvs.flatMap RecvOutcome.bytes)
  obtain ⟨o, hrun⟩ := exists_chunkRun r.dechunked.cap {}
    (buffered ++ io.recvs.flatMap RecvOutcome.bytes)
  have hcut := connRecvBodyChunkedCalls_verdict fd hread hdel hroom (Nat.lt_succ_self _) hrun
  have hnil : ({ io with recvs := [] } : Io).recvs = [] := rfl
  have hwhole := connRecvBodyChunkedCalls_verdict fd hall (by rw [hnil]; simp [Delivers])
    (by rw [hnil]; simpa using hroom) (Nat.lt_succ_self _) (by rw [hnil]; simpa using hrun)
  rw [connRecvBodyChunkedCalls_nil _ _ _ _ _ hnil, hnil, List.flatMap_nil, List.append_nil]
    at hwhole
  exact hcut.sameAnswer hwhole

theorem connRecvBodyChunked_segmentation_split_crlf :
    let head := ascii "GET"
    let r : ChunkedRead :=
      { reqBuf := { cap := 64, size := 7, address := some 0,
                    storage := head ++ ascii "2" ++ CRLF ++ [65] }
        dechunked := { cap := 16, address := some 64 } }
    let io : Io := { recvs := [.data [66, CR], .again, .interrupted, .data [LF, 48, CR], .again,
      .data (LF :: CRLF)] }
    SameAnswer (connRecvBodyChunkedCalls 5 head.length (io.recvs.length + 1) r io)
      (connRecvBodyChunked 5 head.length (r.withAll io.recvs) { io with recvs := [] }) := by
  intro head r io
  have hdel : Delivers io.recvs := by
    intro o ho
    simp only [io, List.mem_cons, List.not_mem_nil, or_false] at ho
    rcases ho with rfl | rfl | rfl | rfl | rfl | rfl <;> simp
  exact connRecvBodyChunked_segmentation 5 head (ascii "2" ++ CRLF ++ [65]) r io
    (by show 7 ≤ _; decide) (by decide) rfl rfl hdel (by decide)

end HttpServer
