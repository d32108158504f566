import HttpServer.Receiving

/-!
# Reading a head and a body of announced length

What the loops of `conn_recv_header` and `conn_recv_body_cl` have done when they
return: the buffer has grown by what `recv` delivered, and the status says where
the buffered bytes stand.
-/

namespace HttpServer

variable {b b' : HttpBuffer} {got : Bytes} {recvs rest : List RecvOutcome} {log log' : List Event}
  {last : Option RecvOutcome}

/-- `b'` is `b` with `got` received behind its live bytes. -/
structure HttpBuffer.Received (b : HttpBuffer) (got : Bytes) (b' : HttpBuffer) : Prop where
  backed : b'.Backed
  contents : b'.contents = b.contents ++ got
  cap : b'.cap = b.cap
  address : b'.address = b.address

theorem HttpBuffer.Backed.received_nil (h : b.Backed) : b.Received [] b :=
  ⟨h, (List.append_nil _).symm, rfl, rfl⟩

theorem HttpBuffer.Received.size (hb : b.Backed) (h : b.Received got b') :
    b'.size = b.size + got.length := by
  rw [← h.backed.length_contents, h.contents, List.length_append, hb.length_contents]

/-- A reader has called `recv` for `b`; `last` is the answer it stopped at, if it stopped at
one. -/
def ReadPost (b : HttpBuffer) (recvs : List RecvOutcome) (log : List Event)
    (last : Option RecvOutcome) (b' : HttpBuffer) (rest : List RecvOutcome) (log' : List Event) :
    Prop :=
  ∃ outs, log' = log ++ outs.map Event.recv ∧ RecvScript (b.cap - b.size) recvs rest outs ∧
    b.Received (outs.flatMap RecvOutcome.bytes) b' ∧ ∀ out ∈ last, outs.getLast? = some out

theorem ReadPost.stop (hb : b.Backed) : ReadPost b recvs log none b recvs log :=
  ⟨[], by simp, .stop _ _, hb.received_nil, by simp⟩

theorem ReadPost.blocked (hb : b.Backed) :
    ReadPost b [] log (some .again) b [] (log ++ [.recv .again]) :=
  ⟨[.again], rfl, .blocked _, hb.received_nil, by simp⟩

/-- A call that delivers nothing and ends the reading. -/
theorem ReadPost.last_call {o out : RecvOutcome} (hb : b.Backed)
    (hclip : o.clip (b.cap - b.size) = out) (hbytes : out.bytes = []) :
    ReadPost b (o :: recvs) log (some out) b recvs
      (log ++ [.recv (o.clip (b.cap - b.size))]) := by
  refine ⟨[out], by rw [hclip]; rfl, .cons hclip (.stop _ _), ?_, by simp⟩
  rw [List.flatMap_singleton, hbytes]
  exact hb.received_nil

/-- A call of `recv` in front of others. -/
theorem ReadPost.call {o out : RecvOutcome} {b₁ : HttpBuffer} (hb : b.Backed)
    (hclip : o.clip (b.cap - b.size) = out) (hgot : b.Received out.bytes b₁)
    (h : ReadPost b₁ recvs (log ++ [.recv (o.clip (b.cap - b.size))]) last b' rest log') :
    ReadPost b (o :: recvs) log last b' rest log' := by
  obtain ⟨outs, hlog, hscript, hrec, hlast⟩ := h
  rw [hclip] at hlog
  refine ⟨out :: outs, by rw [hlog]; simp, .cons hclip ?_, ?_, ?_⟩
  · rwa [hgot.cap, hgot.size hb, Nat.sub_add_eq] at hscript
  · rw [List.flatMap_cons]
    exact
      { backed := hrec.backed
        contents := by rw [hrec.contents, hgot.contents, List.append_assoc]
        cap := hrec.cap.trans hgot.cap
        address := hrec.address.trans hgot.address }
  · intro out' hout'
    rw [List.getLast?_cons, hlast out' hout']
    rfl

theorem HttpBuffer.Backed.received_append (h : b.Backed) (got : Bytes) :
    b.Received got (b.append got) :=
  ⟨h.append got, h.contents_append got, rfl, rfl⟩

/-! ## The head -/

theorem memmem_append {hay needle : Bytes} {i : ℕ} (h : memmem hay needle = some i)
    (more : Bytes) : memmem (hay ++ more) needle = some i := by
  simp only [memmem] at h ⊢
  split at h
  · next hlt =>
    rw [PatternSearch.find_append hlt, if_pos (by rw [List.length_append]; omega)]
    exact h
  · cases h

theorem memmem_add_length_le {hay needle : Bytes} {i : ℕ} (h : memmem hay needle = some i) :
    i + needle.length ≤ hay.length := by
  simp only [memmem] at h
  split at h
  · next hlt =>
    obtain rfl := Option.some.inj h
    exact PatternSearch.find_add_length_le hlt
  · cases h

def ReadHeaderStatus.lastRecv : ReadHeaderStatus → Option RecvOutcome
  | .hasMore => some .again
  | .peerClosed => some (.data [])
  | .ioError => some .error
  | _ => none

/-- Where the buffered bytes stand when `conn_recv_header` returns. -/
def HeaderEnd (res : ReadHeaderResult) (b : HttpBuffer) : Prop :=
  match res.status with
  | .ok => ∃ terminator, memmem b.contents HEADER_END = some terminator ∧
      res.bodyStart = terminator + 4
  | .tooLarge => memmem b.contents HEADER_END = none ∧ b.cap ≤ b.size
  | .hasMore | .peerClosed | .ioError => memmem b.contents HEADER_END = none ∧ b.size < b.cap

def HeaderLoopPost (b : HttpBuffer) (recvs : List RecvOutcome) (log : List Event) :
    ReadHeaderResult × HttpBuffer × List RecvOutcome × List Event → Prop
  | (res, b', rest, log') =>
    ReadPost b recvs log res.status.lastRecv b' rest log' ∧ HeaderEnd res b'

theorem connRecvHeaderLoop_spec (recvs : List RecvOutcome) (log : List Event) (hb : b.Backed) :
    HeaderLoopPost b recvs log (connRecvHeaderLoop recvs b log) := by
  fun_induction connRecvHeaderLoop recvs b log with
  | case1 recvs b log res terminator hfind => exact ⟨.stop hb, terminator, hfind, rfl⟩
  | case2 recvs b log res hfind hfull => exact ⟨.stop hb, hfind, hfull⟩
  | case3 b log res hfind hroom => exact ⟨.blocked hb, hfind, Nat.not_le.mp hroom⟩
  | case4 b log res hfind hroom o rest out log' hout =>
    exact ⟨.last_call hb hout rfl, hfind, Nat.not_le.mp hroom⟩
  | case5 b log hfind hroom o rest out log' got hne hout ih =>
    obtain ⟨hpost, hend⟩ := ih (hb.append got)
    exact ⟨.call hb hout (hb.received_append got) hpost, hend⟩
  | case6 b log res hfind hroom o rest out log' hout =>
    exact ⟨.last_call hb hout rfl, hfind, Nat.not_le.mp hroom⟩
  | case7 b log hfind hroom o rest out log' hout ih =>
    obtain ⟨hpost, hend⟩ := ih hb
    exact ⟨.call hb hout hb.received_nil hpost, hend⟩
  | case8 b log res hfind hroom o rest out log' hout =>
    exact ⟨.last_call hb hout rfl, hfind, Nat.not_le.mp hroom⟩

/-! ## A body of announced length -/

/-- Where the received bytes stand when `conn_recv_body_cl` returns. The result `ok` comes with
the offset behind the body when more than the body has been received, and with 0 otherwise. -/
def LengthEnd (bodyStart bodyLen : ℕ) (res : ReadBodyResult) (b : HttpBuffer) (st : CLBodySt) :
    Prop :=
  match res.status with
  | .ok => bodyLen ≤ st.received ∧
      res.nextReqOffset = if bodyLen < st.received then bodyStart + bodyLen else 0
  | .tooLarge => st.received < bodyLen ∧ b.cap ≤ b.size
  | .hasMore => st.received < bodyLen ∧ b.size < b.cap
  | .peerClosed | .ioError => st.received < bodyLen
  | .badData => False

/-- The reader counts what it receives. -/
def LengthLoopPost (bodyStart bodyLen : ℕ) (b : HttpBuffer) (st : CLBodySt)
    (recvs : List RecvOutcome) (log : List Event) :
    ReadBodyResult × HttpBuffer × CLBodySt × List RecvOutcome × List Event → Prop
  | (res, b', st', rest, log') =>
    ReadPost b recvs log res.status.lastRecv b' rest log' ∧
      st'.received + b.size = st.received + b'.size ∧ LengthEnd bodyStart bodyLen res b' st'

theorem connRecvBodyClLoop_spec (bodyStart bodyLen : ℕ) (recvs : List RecvOutcome) (st : CLBodySt)
    (log : List Event) (hb : b.Backed) :
    LengthLoopPost bodyStart bodyLen b st recvs log
      (connRecvBodyClLoop bodyStart bodyLen recvs b st log) := by
  fun_induction connRecvBodyClLoop bodyStart bodyLen recvs b st log with
  | case1 recvs b st log hall next => exact ⟨.stop hb, rfl, hall, rfl⟩
  | case2 recvs b st log res hmore hfull =>
    exact ⟨.stop hb, rfl, Nat.not_le.mp hmore, hfull⟩
  | case3 b st log res hmore hroom =>
    exact ⟨.blocked hb, rfl, Nat.not_le.mp hmore, Nat.not_le.mp hroom⟩
  | case4 b st log res hmore hroom o rest out log' hout =>
    exact ⟨.last_call hb hout rfl, rfl, Nat.not_le.mp hmore⟩
  | case5 b st log hmore hroom o rest out log' got hne hout ih =>
    obtain ⟨hpost, hcount, hend⟩ := ih (hb.append got)
    refine ⟨.call hb hout (hb.received_append got) hpost, ?_, hend⟩
    rw [HttpBuffer.append_size] at hcount
    dsimp only at hcount
    omega
  | case6 b st log res hmore hroom o rest out log' hout =>
    exact ⟨.last_call hb hout rfl, rfl, Nat.not_le.mp hmore, Nat.not_le.mp hroom⟩
  | case7 b st log hmore hroom o rest out log' hout ih =>
    obtain ⟨hpost, hcount, hend⟩ := ih hb
    exact ⟨.call hb hout hb.received_nil hpost, hcount, hend⟩
  | case8 b st log res hmore hroom o rest out log' hout =>
    exact ⟨.last_call hb hout rfl, rfl, Nat.not_le.mp hmore⟩

end HttpServer
