import HttpServer.BodyExactness
import HttpServer.ResponseFraming
import HttpServer.StreamedRuns

/-!
# Where a streamed response ends

The reader of `receive` on a response that is streamed. The head announces chunked
frames, so the reader goes by these: of a response that has been cut short anywhere
it makes nothing, and of a whole one it makes what has been pulled.
-/

namespace HttpServer

open IncrementalDecoder

variable {s s' more line rest wire payload : Bytes} {lines : List Bytes}

/-! ## A reader of chunked bodies -/

/-- `dechunk` takes a chunked body off the stream and nothing else. -/
def ReadsChunked (dechunk : Bytes → Option (Bytes × Bytes)) : Prop :=
  ∀ s body rest, dechunk s = some (body, rest) ↔
    ∃ wire, s = wire ++ rest ∧ ChunkedBody wire body

/-- A reader that drives the decoder of the server. -/
def readChunked (s : Bytes) : Option (Bytes × Bytes) :=
  (dechunkDrive s s.length (s.length + 1) {}).bind fun r =>
    if r.dec.phase = .done then some (r.out, s.drop r.consumed) else none

theorem ChunkedBody.payload_le (h : ChunkedBody wire payload) : payload.length ≤ wire.length := by
  induction h with
  | last => exact Nat.zero_le _
  | chunk hline hpos hmax hdata rest ih =>
    simp only [List.length_append]
    omega

/-- The decoder is done only behind a chunked body. -/
theorem driveEnd_done {cap : ℕ} {o : Outcome Dechunk ParseStatus} {r : ChunkDrive}
    (hrun : Run (chunkStep cap) {} s o) (hend : DriveEnd {} o r) (hdone : r.dec.phase = .done) :
    ChunkedBody (s.take r.consumed) r.out := by
  cases o with
  | more t n =>
    obtain rfl := hend
    exact absurd hdone (phase_ne_done_of_run_more hrun)
  | done t n =>
    obtain ⟨payload, hremains, hout, -, -⟩ := remains_of_run hrun (Nat.zero_le _)
    have hbody : ChunkedBody (s.take n) payload := hremains
    obtain rfl := hend
    have hpayload : t.out = payload := by simpa using hout
    simpa [hpayload] using hbody
  | fail e => exact absurd hdone hend.2.2.2

theorem readsChunked_readChunked : ReadsChunked readChunked := by
  intro s body rest
  obtain ⟨o, r, hrun, hdrive, hend⟩ :=
    exists_dechunkDrive s s.length (Nat.lt_succ_self s.length)
  rw [readChunked, hdrive, Option.bind_some]
  constructor
  · intro h
    rw [Option.ite_none_right_eq_some] at h
    obtain ⟨hdone, h⟩ := h
    obtain ⟨rfl, rfl⟩ := Prod.mk.inj (Option.some.inj h)
    exact ⟨s.take r.consumed, (List.take_append_drop ..).symm, driveEnd_done hrun hend hdone⟩
  · rintro ⟨wire, rfl, hbody⟩
    have hfit : body.length ≤ (wire ++ rest).length := by
      rw [List.length_append]
      exact hbody.payload_le.trans (Nat.le_add_right _ _)
    obtain ⟨hdone, -, hused, hout⟩ := driveEnd_of_chunkedBody hbody hfit hrun hend
    rw [if_pos hdone, hout, hused, List.drop_left]

/-! ## More behind what has been read -/

theorem takeLine_more (h : takeLine s = some (line, rest)) (more : Bytes) :
    takeLine (s ++ more) = some (line, rest ++ more) := by
  induction s generalizing line with
  | nil => cases h
  | cons c s ih =>
    cases s with
    | nil => simp [takeLine] at h
    | cons d s =>
      rw [takeLine] at h
      rw [List.cons_append, takeLine]
      by_cases hend : c = CR ∧ (d :: s).head? = some LF
      · rw [if_pos hend] at h
        obtain ⟨rfl, rfl⟩ := Prod.mk.inj (Option.some.inj h)
        exact if_pos hend
      · rw [if_neg hend, Option.map_eq_some_iff] at h
        obtain ⟨⟨line', rest'⟩, htake, h⟩ := h
        obtain ⟨rfl, rfl⟩ := Prod.mk.inj h
        have hend' : ¬ (c = CR ∧ (d :: s ++ more).head? = some LF) := hend
        rw [if_neg hend', ih htake]
        rfl

theorem fieldLines_more {fuel fuel' : ℕ} (hfuel : fuel ≤ fuel')
    (h : fieldLines fuel s = some (lines, rest)) (more : Bytes) :
    fieldLines fuel' (s ++ more) = some (lines, rest ++ more) := by
  induction fuel generalizing fuel' s lines with
  | zero => cases h
  | succ fuel ih =>
    obtain ⟨fuel', rfl⟩ := Nat.exists_eq_succ_of_ne_zero (Nat.ne_of_gt (Nat.zero_lt_of_lt hfuel))
    rw [fieldLines] at h
    rw [fieldLines]
    cases htake : takeLine s with
    | none => rw [htake] at h; cases h
    | some taken =>
      obtain ⟨line, behind⟩ := taken
      rw [htake] at h
      rw [takeLine_more htake]
      cases line with
      | nil =>
        obtain ⟨rfl, rfl⟩ := Prod.mk.inj (Option.some.inj h)
        rfl
      | cons c line =>
        dsimp only at h ⊢
        rw [Option.map_eq_some_iff] at h
        obtain ⟨⟨lines', rest'⟩, hrest, h⟩ := h
        obtain ⟨rfl, rfl⟩ := Prod.mk.inj h
        rw [ih (Nat.le_of_succ_le_succ hfuel) hrest]
        rfl

/-- What a reader has taken off the stream when it has a response. -/
theorem receive_some {dechunk : Bytes → Option (Bytes × Bytes)} {r : Bytes × Bytes}
    (h : receive dechunk s = some r) :
    ∃ start behind lines rest, takeLine s = some (start, behind) ∧
      fieldLines (behind.length + 1) behind = some (lines, rest) ∧
      (fieldValues lines (ascii "transfer-encoding") ≠ [] → dechunk rest = some r) := by
  simp only [receive, Option.bind_eq_bind, Option.bind_eq_some_iff] at h
  obtain ⟨⟨start, behind⟩, hstart, ⟨lines, rest⟩, hlines, h⟩ := h
  refine ⟨start, behind, lines, rest, hstart, hlines, fun hcodings => ?_⟩
  rwa [if_pos hcodings] at h

/-! ## The head of a streamed response -/

def codingField : Bytes := ascii "Transfer-Encoding: chunked"

/-- The header lines of a response that is streamed. -/
def streamFields (resp : HttpResponse) (keepAlive : Bool) (now : ℤ) : List Bytes :=
  [dateField now] ++ resp.headers.map headerField ++ [connectionField keepAlive] ++ [codingField]

variable {resp : HttpResponse} {stream : Stream} {keepAlive : Bool} {now : ℤ}

theorem streamFields_fieldLine (hheaders : ∀ header ∈ resp.headers, header.Plain) :
    ∀ line ∈ streamFields resp keepAlive now, FieldLine line := by
  intro line hmem
  rw [streamFields, List.mem_append, List.mem_singleton] at hmem
  rcases hmem with hmem | rfl
  · have hbuffer : line ∈ bufferFields resp 0 keepAlive now := List.mem_append_left _ hmem
    exact bufferFields_fieldLine hheaders line hbuffer
  · exact ⟨by decide, one_line_of_cr_not_mem (by decide)⟩

theorem streamFields_codings (resp : HttpResponse) (keepAlive : Bool) (now : ℤ) :
    fieldValues (streamFields resp keepAlive now) (ascii "transfer-encoding") ≠ [] := by
  have hcoding : fieldValues [codingField] (ascii "transfer-encoding") ≠ [] := by decide
  rw [streamFields, fieldValues_append]
  exact List.append_ne_nil_of_right_ne_nil _ hcoding

/-- The text of a response that is streamed, by lines. -/
theorem responseText_stream (hbody : resp.body = .stream stream) :
    responseText resp keepAlive now =
      startField resp ++ CRLF ++
        ((streamFields resp keepAlive now).flatMap (· ++ CRLF) ++ CRLF) := by
  have hframing : framingText resp = codingField ++ CRLF := by
    rw [framingText, hbody]
    rfl
  have hnone : bodyText resp = [] := by rw [bodyText, hbody]
  have hheaderText : resp.headers.flatMap headerText =
      (resp.headers.map headerField).flatMap (· ++ CRLF) := by
    rw [List.flatMap_map]
    rfl
  have hconnection : connectionLine keepAlive = connectionField keepAlive ++ CRLF := rfl
  have hdate : dateLine now = dateField now ++ CRLF := rfl
  have hstart : startLine resp = startField resp ++ CRLF := rfl
  rw [responseText, responseHeadText, hframing, hnone, hheaderText, hconnection, hdate, hstart,
    streamFields]
  simp only [List.flatMap_append, List.flatMap_cons, List.flatMap_nil, List.append_nil,
    List.append_assoc]

/-- What a reader has of the text that begins so: its lines, and what is behind them. -/
theorem headLines_stream (hbody : resp.body = .stream stream)
    (hreason : ¬ CRLF <:+: resp.reason) (hheaders : ∀ header ∈ resp.headers, header.Plain)
    (keepAlive : Bool) (now : ℤ) (rest : Bytes) :
    ∃ behind, takeLine (responseText resp keepAlive now ++ rest) =
        some (startField resp, behind) ∧
      fieldLines (behind.length + 1) behind = some (streamFields resp keepAlive now, rest) := by
  have hlines : ∀ line ∈ streamFields resp keepAlive now, FieldLine line :=
    streamFields_fieldLine hheaders
  have hlen := length_le_flatMap_crlf (streamFields resp keepAlive now)
  refine ⟨(streamFields resp keepAlive now).flatMap (· ++ CRLF) ++ (CRLF ++ rest), ?_, ?_⟩
  · rw [responseText_stream hbody, ← takeLine_append (startField_one_line hreason)]
    simp only [List.append_assoc]
  · refine fieldLines_flatMap hlines rest ?_
    rw [List.length_append]
    omega

/-! ## The whole response and its parts -/

theorem chunkedBody_frameTexts {payloads : List Bytes}
    (hsize : ∀ payload ∈ payloads, payload ≠ [] ∧ payload.length ≤ HTTP_MAX_BODY_LEN) :
    ChunkedBody (payloads.flatMap frameText ++ LAST_CHUNK) payloads.flatten := by
  induction payloads with
  | nil => exact .last (sizeLine_showHex 0)
  | cons payload payloads ih =>
    obtain ⟨hne, hmax⟩ := hsize payload (List.mem_cons_self ..)
    have hrest := ih fun p hp => hsize p (List.mem_cons_of_mem _ hp)
    have hbody := ChunkedBody.chunk (sizeLine_showHex payload.length)
      (List.length_pos_iff.mpr hne) hmax rfl hrest
    rw [List.flatMap_cons, List.flatten_cons, frameText]
    simpa only [List.append_assoc] using hbody

/-- A reader has a response exactly when all of it has arrived, the last chunk included, and then
it has everything that has been framed. -/
theorem receive_stream_iff {dechunk : Bytes → Option (Bytes × Bytes)} (hreads : ReadsChunked dechunk)
    (hbody : resp.body = .stream stream) (hreason : ¬ CRLF <:+: resp.reason)
    (hheaders : ∀ header ∈ resp.headers, header.Plain) {payloads : List Bytes}
    (hsize : ∀ payload ∈ payloads, payload ≠ [] ∧ payload.length ≤ HTTP_MAX_BODY_LEN)
    {got : Bytes}
    (hgot : got <+: streamText (responseText resp keepAlive now) payloads ++ LAST_CHUNK)
    (body rest : Bytes) :
    receive dechunk got = some (body, rest) ↔
      got = streamText (responseText resp keepAlive now) payloads ++ LAST_CHUNK ∧
        body = payloads.flatten ∧ rest = [] := by
  have hchunked := chunkedBody_frameTexts hsize
  have hwhole : streamText (responseText resp keepAlive now) payloads ++ LAST_CHUNK =
      responseText resp keepAlive now ++ (payloads.flatMap frameText ++ LAST_CHUNK) :=
    List.append_assoc ..
  obtain ⟨behind, hstart, hlines⟩ :=
    headLines_stream hbody hreason hheaders keepAlive now
      (payloads.flatMap frameText ++ LAST_CHUNK)
  rw [← hwhole] at hstart
  have hcodings := streamFields_codings resp keepAlive now
  constructor
  · intro h
    obtain ⟨more, hmore⟩ := hgot
    obtain ⟨start', behind', lines', rest', hstart', hlines', hdechunk⟩ := receive_some h
    -- the same lines are read when the rest of the response is there as well
    have hstart'' := takeLine_more hstart' more
    rw [hmore, hstart] at hstart''
    obtain ⟨-, rfl⟩ := Prod.mk.inj (Option.some.inj hstart'')
    have hfuel : behind'.length + 1 ≤ (behind' ++ more).length + 1 := by
      rw [List.length_append]
      omega
    have hlines'' := fieldLines_more hfuel hlines' more
    rw [hlines] at hlines''
    obtain ⟨rfl, hrest⟩ := Prod.mk.inj (Option.some.inj hlines'')
    obtain ⟨wire, rfl, hwire⟩ := (hreads rest' body rest).mp (hdechunk hcodings)
    rw [List.append_assoc] at hrest
    obtain ⟨rfl, rfl⟩ := hchunked.unique hwire List.prefix_rfl ⟨rest ++ more, hrest.symm⟩
    obtain ⟨rfl, rfl⟩ := List.append_eq_nil_iff.mp (List.self_eq_append_right.mp hrest)
    exact ⟨by rw [← hmore, List.append_nil], rfl, rfl⟩
  · rintro ⟨rfl, rfl, rfl⟩
    have hread := (hreads (payloads.flatMap frameText ++ LAST_CHUNK) payloads.flatten []).mpr
      ⟨_, (List.append_nil _).symm, hchunked⟩
    unfold receive
    simp only [hstart, hlines, Option.bind_eq_bind, Option.bind_some, if_pos hcodings, hread]

end HttpServer
