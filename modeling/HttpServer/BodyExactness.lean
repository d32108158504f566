import HttpServer.ChunkedGrammar
import HttpServer.HeadTracking

/-!
# The body a handler is given

When a request comes to be answered, the connection still holds its bytes. What the
handler then sees as the body is compared with the body that the head announces.
-/

namespace HttpServer

open IncrementalDecoder Relation

variable {σ : Type*} {router : Router σ} {allowed : Machine σ → Prop} {m m' : Machine σ}
  {pre post conn : Connection} {evs : List Event} {headers : List Header} {rest own : Bytes}

/-! ## The body of a request -/

/-- `own` is the body of a request with these headers when `rest` is what follows its head. -/
inductive OwnBody (headers : List Header) (rest : Bytes) : Bytes → Prop where
  | chunked {wire payload} (hcoding : (teHeadersScan headers .none .ok).1 = .chunked)
      (hwire : wire <+: rest) (hbody : ChunkedBody wire payload) : OwnBody headers rest payload
  | length {header n} (hcoding : (teHeadersScan headers .none .ok).1 ≠ .chunked)
      (hfind : headerFind headers (ascii "content-length") = some header)
      (hvalue : uintParse header.value 10 HTTP_MAX_BODY_LEN = (.ok, some n))
      (hlen : n ≤ rest.length) : OwnBody headers rest (rest.take n)
  | empty (hcoding : (teHeadersScan headers .none .ok).1 ≠ .chunked)
      (hfind : headerFind headers (ascii "content-length") = none) : OwnBody headers rest []

/-- Two chunked bodies at the beginning of the same bytes are the same. -/
theorem ChunkedBody.unique {wire wire' payload payload' : Bytes} (h : ChunkedBody wire payload)
    (h' : ChunkedBody wire' payload') (hwire : wire <+: rest) (hwire' : wire' <+: rest) :
    wire = wire' ∧ payload = payload' := by
  obtain ⟨more, rfl⟩ := hwire
  obtain ⟨more', hmore'⟩ := hwire'
  have hresume := chunkStep_resumable (max payload.length payload'.length)
  have hfit : ({} : Dechunk).out.length + payload.length ≤ max payload.length payload'.length := by
    simp
  have hfit' : ({} : Dechunk).out.length + payload'.length ≤
      max payload.length payload'.length := by
    simp
  obtain ⟨s, hrun, -, hout⟩ := run_of_chunkedBody h rfl hfit
  obtain ⟨s', hrun', -, hout'⟩ := run_of_chunkedBody h' rfl hfit'
  have hdone := hresume.run_done_append hrun more
  have hdone' := hresume.run_done_append hrun' more'
  rw [hmore'] at hdone'
  obtain ⟨rfl, hlen⟩ := Outcome.done.inj (hdone.unique hdone')
  refine ⟨?_, by simpa [hout] using hout'⟩
  exact (List.append_inj hmore'.symm hlen).1

/-- More bytes behind a request are not part of its body. -/
theorem OwnBody.unique {rest' own' : Bytes} (h : OwnBody headers rest own)
    (h' : OwnBody headers rest' own') (hrest : rest <+: rest') : own = own' := by
  cases h with
  | chunked hcoding hwire hbody =>
    cases h' with
    | chunked _ hwire' hbody' => exact (hbody.unique hbody' (hwire.trans hrest) hwire').2
    | length hcoding' => exact absurd hcoding hcoding'
    | empty hcoding' => exact absurd hcoding hcoding'
  | @length header n hcoding hfind hvalue hlen =>
    cases h' with
    | chunked hcoding' => exact absurd hcoding' hcoding
    | @length header' n' _ hfind' hvalue' =>
      rw [hfind] at hfind'
      obtain rfl := Option.some.inj hfind'
      rw [hvalue] at hvalue'
      obtain rfl := Option.some.inj (Prod.mk.inj hvalue').2
      obtain ⟨more, rfl⟩ := hrest
      rw [List.take_append_of_le_length hlen]
    | empty _ hfind' =>
      rw [hfind] at hfind'
      cases hfind'
  | empty hcoding hfind =>
    cases h' with
    | chunked hcoding' => exact absurd hcoding' hcoding
    | length _ hfind' =>
      rw [hfind] at hfind'
      cases hfind'
    | empty => rfl

/-! ## What the connection gives the handler -/

/-- What the body reader leaves behind for the handler and for `request_consume`. -/
inductive Connection.BodyGiven (conn : Connection) : Prop where
  | chunked {n} (hcoding : conn.bodyCoding = .chunked) (hn : n ≤ conn.restBytes.length)
      (hbody : ChunkedBody (conn.restBytes.take n) conn.bodyBytes)
      (hnext : conn.nextReqOffset = conn.bodyStart + n)
  | length (hcoding : conn.bodyCoding ≠ .chunked) (hpos : conn.bodyLen ≠ 0)
      (hall : conn.bodyLen ≤ conn.restBytes.length) (hbody : conn.bodyBytes = conn.restBytes)
      (hnext : conn.nextReqOffset = if conn.bodyLen < conn.restBytes.length then
        conn.bodyStart + conn.bodyLen else 0)
  | empty (hcoding : conn.bodyCoding ≠ .chunked) (hzero : conn.bodyLen = 0)
      (hbody : conn.bodyBytes = []) (hnext : conn.nextReqOffset = conn.bodyStart)

structure Connection.BodyTracked (conn : Connection) : Prop where
  counts : conn.phase = .readingBodyCl → conn.bodyCoding ≠ .chunked ∧ conn.bodyLen ≠ 0 ∧
    conn.st.getCl.received = conn.restBytes.length
  decodes : conn.phase = .readingBodyChunked → conn.bodyCoding = .chunked
  given : conn.phase = .building → conn.BodyGiven

theorem Connection.BodyTracked.of_phase (hcl : conn.phase ≠ .readingBodyCl)
    (hchunked : conn.phase ≠ .readingBodyChunked) (hbuilding : conn.phase ≠ .building) :
    conn.BodyTracked :=
  ⟨fun h => absurd h hcl, fun h => absurd h hchunked, fun h => absurd h hbuilding⟩

theorem Connection.length_restBytes (conn : Connection) (hb : conn.mem.reqBuf.Backed) :
    conn.restBytes.length = conn.mem.reqBuf.size - conn.bodyStart := by
  rw [restBytes, List.length_drop, hb.length_contents]

theorem Connection.dispatched_bodyTracked (hb : conn.mem.reqBuf.Backed) :
    conn.dispatched.BodyTracked := by
  unfold dispatched phaseBodyDispatch
  split
  · next hcoding => exact ⟨(fun h => by cases h), fun _ => hcoding, (fun h => by cases h)⟩
  · next hcoding =>
    split
    · next hzero =>
      exact ⟨(fun h => by cases h), (fun h => by cases h), fun _ => .empty hcoding hzero rfl rfl⟩
    · next hpos =>
      exact ⟨fun _ => ⟨hcoding, hpos, (conn.length_restBytes hb).symm⟩, (fun h => by cases h),
        (fun h => by cases h)⟩

theorem Connection.completed_bodyTracked (conn : Connection) : conn.completed.BodyTracked := by
  rcases conn.completed_phase with h | h <;>
    exact .of_phase (by simp [h]) (by simp [h]) (by simp [h])

/-- The chunk reader has read one body, and its decoded bytes are the payload. -/
theorem Connection.ReadsChunked.chunkedBody {outs : List RecvOutcome} {r : ChunkedRead}
    {res : ReadBodyResult} (h : conn.ReadsChunked outs r res) (hok : res.status = .ok) :
    ∃ n, n ≤ (conn.restBytes ++ outs.flatMap RecvOutcome.bytes).length ∧
      ChunkedBody ((conn.restBytes ++ outs.flatMap RecvOutcome.bytes).take n)
        r.dechunked.contents ∧ res.nextReqOffset = conn.headBytes.length + n := by
  have hend := h.post.result
  rw [ChunkedReadEnd, hok] at hend
  obtain ⟨s, n, hrun, hnext, hout, -⟩ := hend
  obtain ⟨payload, hremains, hpayload, -, -⟩ := remains_of_run hrun (Nat.zero_le _)
  have hbody : ChunkedBody ((conn.restBytes ++ outs.flatMap RecvOutcome.bytes).take n) payload :=
    hremains
  refine ⟨n, (chunkStep_resumable r.dechunked.cap).run_used_le hrun, ?_, hnext⟩
  rw [hout, hpayload]
  exact hbody

/-- Everything behind the head is counted as body. -/
theorem Connection.BodyTracked.received_eq {outs : List RecvOutcome} {buf : HttpBuffer}
    {st : CLBodySt} (hpre : pre.BodyTracked) (hwf : pre.WellFormed)
    (hphase : pre.phase = .readingBodyCl) (hread : pre.mem.reqBuf.Read outs buf)
    (hcount : st.received + pre.mem.reqBuf.size = pre.st.getCl.received + buf.size) :
    st.received = (buf.contents.drop pre.bodyStart).length := by
  obtain ⟨-, -, hreceived⟩ := hpre.counts hphase
  have hstart := (hwf.head (.inr (.inl hphase))).bodyStart_le
  rw [hwf.backed.length_contents] at hstart
  have hsize := hread.received.size hwf.backed
  rw [Connection.length_restBytes _ hwf.backed] at hreceived
  rw [List.length_drop, hread.received.backed.length_contents]
  omega

theorem Turn.bodyTracked (h : Turn pre evs post) (hwf : pre.WellFormed)
    (hpre : pre.BodyTracked) : post.BodyTracked := by
  cases h with
  | headAccepted hphase hread hfind haccept =>
    have hmem := (headAccept_spec haccept).1.mem
    exact Connection.dispatched_bodyTracked (hmem ▸ hread.received.backed)
  | continueSent hphase => exact Connection.dispatched_bodyTracked hwf.backed
  | @lengthWaits outs buf st hphase hread hcount =>
    obtain ⟨hcoding, hpos, -⟩ := hpre.counts hphase
    exact ⟨fun _ => ⟨hcoding, hpos, hpre.received_eq hwf hphase hread hcount⟩,
      (fun h => by cases h), (fun h => by cases h)⟩
  | @lengthDone outs buf st next hphase hread hcount hall hnext =>
    obtain ⟨hcoding, hpos, -⟩ := hpre.counts hphase
    have hreceived := hpre.received_eq hwf hphase hread hcount
    refine ⟨(fun h => by cases h), (fun h => by cases h), fun _ => .length hcoding hpos ?_ ?_ ?_⟩
    · show pre.bodyLen ≤ (buf.contents.drop pre.bodyStart).length
      omega
    · show (buf.storage.drop pre.bodyStart).take st.received = buf.contents.drop pre.bodyStart
      rw [hreceived, List.length_drop, hread.received.backed.length_contents, HttpBuffer.contents,
        List.drop_take]
    · show next = if pre.bodyLen < (buf.contents.drop pre.bodyStart).length then
        pre.bodyStart + pre.bodyLen else 0
      rw [hnext, hreceived]
  | chunkedWaits hphase =>
    exact ⟨(fun h => by cases h), fun _ => hpre.decodes hphase, (fun h => by cases h)⟩
  | @chunkedDone outs r res hphase hread hok =>
    obtain ⟨n, hn, hbody, hnext⟩ := hread.chunkedBody hok
    have hlen := (hwf.head (.inr (.inr (.inl hphase)))).length_headBytes
    have hrest : r.reqBuf.contents.drop pre.bodyStart =
        pre.restBytes ++ outs.flatMap RecvOutcome.bytes := by
      rw [hread.post.contents, ← hlen, List.drop_left]
    rw [← hrest] at hn hbody
    rw [hlen] at hnext
    exact ⟨(fun h => by cases h), (fun h => by cases h),
      fun _ => .chunked (hpre.decodes hphase) hn hbody hnext⟩
  | sendDone => exact Connection.completed_bodyTracked _
  | streamTurns hphase hsends hend =>
    cases hend with
    | done => exact Connection.completed_bodyTracked _
    | waits => exact .of_phase (by simp) (by simp) (by simp)
    | closes => exact .of_phase (by simp) (by simp) (by simp)
  | _ => exact .of_phase (by simp) (by simp) (by simp)

theorem Reaches.bodyTracked (h : Reaches router allowed m m') (hwf : m.conn.WellFormed)
    (hm : m.conn.BodyTracked) : m'.conn.BodyTracked := by
  apply Runs.invariant (fun m => m.conn.BodyTracked) h hm
  intro a b hreaches ha hnext
  cases hnext with
  | wake w => exact ha
  | turn hopen =>
    have hwf' := Reaches.wellFormed hreaches hwf
    obtain ⟨evs, hturn, -⟩ := stepPhase_turn router hwf' hopen
    exact hturn.bodyTracked hwf' ha

theorem Machine.ofSlot_bodyTracked (slot : Connection) (backing backingCap : ℕ) (newFd : ℤ)
    (world : World σ) :
    (Machine.ofSlot slot backing backingCap newFd world).conn.BodyTracked :=
  .of_phase (fun h => by cases h) (fun h => by cases h) (fun h => by cases h)

/-! ## The bodies that are exact -/

/-- The body is chunked, or there is none, or it is the one that the request announces and nothing
has been received behind it. -/
def Connection.BodyAlone (conn : Connection) : Prop :=
  conn.bodyCoding = .chunked ∨ conn.bodyLen = 0 ∨
    (headerFind conn.reqParsed.headers (ascii "content-length")).isSome ∧
      conn.restBytes.length = conn.bodyLen

theorem Connection.FramedByHead.chunked_iff (h : conn.FramedByHead) :
    (teHeadersScan conn.reqParsed.headers .none .ok).1 = .chunked ↔ conn.bodyCoding = .chunked := by
  rw [h.coding]

/-- A body that is not chunked is as long as the header says, or there is no such header. -/
theorem Connection.FramedByHead.ownBody (h : conn.FramedByHead)
    (hcoding : conn.bodyCoding ≠ .chunked) :
    OwnBody conn.reqParsed.headers conn.restBytes own ↔
      ((headerFind conn.reqParsed.headers (ascii "content-length")).isSome ∧
        conn.bodyLen ≤ conn.restBytes.length ∧ own = conn.restBytes.take conn.bodyLen) ∨
      (headerFind conn.reqParsed.headers (ascii "content-length") = none ∧ own = []) := by
  have hscan := mt h.chunked_iff.mp hcoding
  constructor
  · intro hown
    cases hown with
    | chunked hchunked => exact absurd hchunked hscan
    | @length header n _ hfind hvalue hlen =>
      rw [(h.length header hfind).2] at hvalue
      obtain rfl := Option.some.inj (Prod.mk.inj hvalue).2
      exact .inl ⟨by rw [hfind]; rfl, hlen, rfl⟩
    | empty _ hfind => exact .inr ⟨hfind, rfl⟩
  · rintro (⟨hsome, hlen, rfl⟩ | ⟨hnone, rfl⟩)
    · obtain ⟨header, hfind⟩ := Option.isSome_iff_exists.mp hsome
      exact .length hscan hfind (h.length header hfind).2 hlen
    · exact .empty hscan hnone

theorem Connection.BodyGiven.own_iff (h : conn.BodyGiven) (hframed : conn.FramedByHead) :
    OwnBody conn.reqParsed.headers conn.restBytes conn.bodyBytes ↔ conn.BodyAlone := by
  unfold BodyAlone
  cases h with
  | chunked hcoding hn hbody =>
    exact ⟨fun _ => .inl hcoding, fun _ =>
      .chunked (hframed.chunked_iff.mpr hcoding) (List.take_prefix _ _) hbody⟩
  | empty hcoding hzero hbody =>
    refine ⟨fun _ => .inr (.inl hzero), fun _ => (hframed.ownBody hcoding).mpr ?_⟩
    rw [hbody, hzero]
    cases headerFind conn.reqParsed.headers (ascii "content-length") with
    | none => exact .inr ⟨rfl, rfl⟩
    | some header => exact .inl ⟨rfl, Nat.zero_le _, rfl⟩
  | length hcoding hpos hall hbody =>
    rw [hframed.ownBody hcoding, hbody]
    constructor
    · rintro (⟨hsome, hlen, htake⟩ | ⟨hnone, hempty⟩)
      · have hless := congrArg List.length htake
        rw [List.length_take] at hless
        exact .inr (.inr ⟨hsome, by omega⟩)
      · rw [hempty, List.length_nil] at hall
        exact absurd (Nat.le_zero.mp hall) hpos
    · rintro (hchunked | hzero | ⟨hsome, hlen⟩)
      · exact absurd hchunked hcoding
      · exact absurd hzero hpos
      · exact .inl ⟨hsome, hlen.ge, (List.take_of_length_le hlen.le).symm⟩

/-- For every request that comes to be answered, in every run. -/
theorem body_exact_iff (router : Router σ) (slot : Connection) (backing backingCap : ℕ)
    (newFd : ℤ) (world : World σ) (m : Machine σ)
    (hreaches : Reaches router (fun _ => True) (.ofSlot slot backing backingCap newFd world) m)
    (hbuilding : m.conn.phase = .building) :
    (∃ earlier, received m.io.log = earlier ++ (m.conn.headBytes ++ m.conn.restBytes)) ∧
      RequestHead m.conn.headBytes m.conn.reqParsed.bodiless ∧
      (∀ rest own own', m.conn.restBytes <+: rest →
        OwnBody m.conn.reqParsed.headers m.conn.restBytes own →
        OwnBody m.conn.reqParsed.headers rest own' → own = own') ∧
      (OwnBody m.conn.reqParsed.headers m.conn.restBytes m.conn.requestView.body ↔
        m.conn.BodyAlone) := by
  have hwf := Machine.ofSlot_wellFormed slot backing backingCap newFd world
  have hheaded := (hreaches.headTracked hwf
    (Machine.ofSlot_headTracked slot backing backingCap newFd world)).headed
    (.inr (.inr (.inr hbuilding)))
  have hgiven := (hreaches.bodyTracked hwf
    (Machine.ofSlot_bodyTracked slot backing backingCap newFd world)).given hbuilding
  obtain ⟨earlier, hreceived⟩ := hreaches.contents_suffix hwf (List.nil_suffix)
  refine ⟨⟨earlier, ?_⟩, hheaded.parsed, ?_, hgiven.own_iff hheaded.framed⟩
  · rw [Connection.headBytes, Connection.restBytes, List.take_append_drop, hreceived]
  · intro rest own own' hrest hown hown'
    exact hown.unique hown' hrest

/-! ## A body with the next request behind it -/

def surplusHead : Bytes :=
  ascii "POST / HTTP/1.1" ++ CRLF ++ ascii "Host: a" ++ CRLF ++ ascii "Content-Length: 1" ++ CRLF ++
    CRLF

/-- One byte of body and the first byte of the next request arrive with the head. -/
def surplusClient : Machine Unit :=
  newClient.wake { recvs := [.data (surplusHead ++ ascii "xG")] }

def surplusBuilding : Machine Unit := stepPhase {} (stepPhase {} surplusClient)

theorem surplusBuilding_reaches : Reaches {} (fun _ => True) newClient surplusBuilding := by
  apply ReflTransGen.tail (b := stepPhase {} surplusClient)
  · apply ReflTransGen.tail (b := surplusClient)
    · exact .single (.wake _ (by decide))
    · exact .turn (by decide) trivial
  · exact .turn (by decide +kernel) trivial

theorem surplusBuilding_building : surplusBuilding.conn.phase = .building := by decide +kernel

theorem body_exact_iff_surplus :
    OwnBody surplusBuilding.conn.reqParsed.headers surplusBuilding.conn.restBytes
      surplusBuilding.conn.requestView.body ↔ surplusBuilding.conn.BodyAlone :=
  (body_exact_iff {} {} 4096 HTTP_CONN_ARENA_SIZE 5 { handlers := () } surplusBuilding
    surplusBuilding_reaches surplusBuilding_building).2.2.2

/-- The handler is given two bytes where the request has one. -/
theorem body_surplus :
    ∃ m, Reaches {} (fun _ => True) newClient m ∧ m.conn.phase = .building ∧
      m.conn.requestView.body = ascii "xG" ∧
      OwnBody m.conn.reqParsed.headers m.conn.restBytes (ascii "x") ∧
      ¬ OwnBody m.conn.reqParsed.headers m.conn.restBytes m.conn.requestView.body := by
  have hbody : surplusBuilding.conn.requestView.body = ascii "xG" := by decide +kernel
  have hown : OwnBody surplusBuilding.conn.reqParsed.headers surplusBuilding.conn.restBytes
      (ascii "x") := by
    have hrest : surplusBuilding.conn.restBytes = ascii "xG" := by decide +kernel
    have hfind : headerFind surplusBuilding.conn.reqParsed.headers (ascii "content-length") =
        some ⟨ascii "Content-Length", ascii "1"⟩ := by decide +kernel
    have hvalue : uintParse (ascii "1") 10 HTTP_MAX_BODY_LEN = (.ok, some 1) := by decide +kernel
    rw [hrest]
    exact .length (by decide +kernel) hfind hvalue (by decide)
  refine ⟨surplusBuilding, surplusBuilding_reaches, surplusBuilding_building, hbody, hown, ?_⟩
  intro hgiven
  have hsame := hown.unique hgiven (List.prefix_refl _)
  rw [hbody] at hsame
  exact absurd hsame (by decide)

end HttpServer
