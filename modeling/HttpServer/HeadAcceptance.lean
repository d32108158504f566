import HttpServer.Connection
import HttpServer.NumberParsing

/-!
# What an accepted head says

The part of `step_header_read` behind the header read touches only the fields that
a head determines. When it does not answer with an error, the framing fields of
the connection are those that the header lines announce.
-/

namespace HttpServer

/-- The framing fields are those that the headers of the parsed request announce. -/
structure Connection.FramedByHead (conn : Connection) : Prop where
  coding : teHeadersScan conn.reqParsed.headers .none .ok = (conn.bodyCoding, .ok)
  supported : conn.bodyCoding ≠ .unsupported
  length : ∀ header, headerFind conn.reqParsed.headers (ascii "content-length") = some header →
    conn.bodyCoding ≠ .chunked ∧
      uintParse header.value 10 HTTP_MAX_BODY_LEN = (.ok, some conn.bodyLen)

/-- What the framing part of `step_header_read` makes of `conn`; without a `Content-Length` the
length is whatever it was before. -/
structure Connection.Framed (conn read : Connection) : Prop extends read.FramedByHead where
  no_length : headerFind read.reqParsed.headers (ascii "content-length") = none →
    read.bodyLen = conn.bodyLen

theorem uintParse_fst_ok {s : Bytes} {base max : ℕ} {len : Option ℕ}
    (h : uintParse s base max = (.ok, len)) : ∃ n, len = some n := by
  rcases uintParse_cases s base max with ⟨v, hv⟩ | hv | hv <;> rw [hv] at h <;> cases h
  exact ⟨v, rfl⟩

theorem headFraming_spec {conn read : Connection} {verdict : HeadVerdict}
    (h : headFraming conn = (verdict, read)) :
    (∃ coding len, read = { conn with bodyCoding := coding, bodyLen := len }) ∧
      ((∀ status, verdict ≠ .error status) → conn.Framed read) := by
  unfold headFraming at h
  dsimp only at h
  generalize hscan : teHeadersScan conn.reqParsed.headers .none .ok = scanned at h
  obtain ⟨coding, status⟩ := scanned
  dsimp only at h
  have error : ∀ {s r}, (HeadVerdict.error s, r) = (verdict, read) →
      (∃ coding len, r = { conn with bodyCoding := coding, bodyLen := len }) →
      (∃ coding len, read = { conn with bodyCoding := coding, bodyLen := len }) ∧
        ((∀ status, verdict ≠ .error status) → conn.Framed read) := by
    intro s r heq hframe
    obtain ⟨rfl, rfl⟩ := Prod.mk.inj heq
    exact ⟨hframe, fun hne => absurd rfl (hne s)⟩
  split at h
  · exact error h ⟨_, _, rfl⟩
  · next hsupported =>
    split at h
    · exact error h ⟨_, _, rfl⟩
    · next hstatus =>
      obtain rfl : status = .ok := not_not.mp hstatus
      split at h
      · exact error h ⟨_, _, rfl⟩
      · split at h
        · next hfind =>
          obtain ⟨rfl, rfl⟩ := Prod.mk.inj h
          refine ⟨⟨_, _, rfl⟩, fun _ => ⟨⟨hscan, hsupported, ?_⟩, fun _ => rfl⟩⟩
          intro header hsome
          rw [hfind] at hsome
          cases hsome
        · next header hfind =>
          split at h
          · exact error h ⟨_, _, rfl⟩
          · next hcoding =>
            split at h
            · next len hparse =>
              obtain ⟨n, rfl⟩ := uintParse_fst_ok hparse
              obtain ⟨rfl, rfl⟩ := Prod.mk.inj h
              refine ⟨⟨_, _, rfl⟩, fun _ => ⟨⟨hscan, hsupported, ?_⟩, ?_⟩⟩
              · intro header' hsome
                rw [hfind] at hsome
                obtain rfl := Option.some.inj hsome
                exact ⟨hcoding, hparse⟩
              · intro hnone
                rw [hfind] at hnone
                cases hnone
            · exact error h ⟨_, _, rfl⟩

/-- What a head that is not answered with an error makes of a connection. -/
structure Connection.Accepts (conn : Connection) (bodyStart : ℕ) (read : Connection) : Prop where
  parsed : (requestParse conn.mem.reqBuf.contents conn.reqParsed).1.status = .ok
  request : read.reqParsed = (requestParse conn.mem.reqBuf.contents conn.reqParsed).2
  start : read.bodyStart = bodyStart
  host : isHttp10 read.reqParsed = false →
    (headerFind read.reqParsed.headers (ascii "host")).isSome
  keepAlive : read.keepAlive = if isHttp10 read.reqParsed then conn.keepAlive
    else keepAliveNegotiate { conn with reqParsed := read.reqParsed }
  framed : conn.Framed read

/-- The fields that `step_header_read` sets between reading a head and answering it. -/
def Connection.HeadFrame (conn read : Connection) : Prop :=
  ∃ req start keep coding len, read =
    { conn with
      reqParsed := req
      bodyStart := start
      keepAlive := keep
      bodyCoding := coding
      bodyLen := len }

theorem headAccept_spec {conn read : Connection} {bodyStart : ℕ} {verdict : HeadVerdict}
    (h : headAccept conn bodyStart = (verdict, read)) :
    conn.HeadFrame read ∧
      ((∀ status, verdict ≠ .error status) → conn.Accepts bodyStart read) := by
  unfold headAccept at h
  generalize hparse : requestParse conn.mem.reqBuf.contents conn.reqParsed = parsed at h
  obtain ⟨parseRes, req⟩ := parsed
  dsimp only at h
  split at h
  · obtain ⟨rfl, rfl⟩ := Prod.mk.inj h
    exact ⟨⟨_, _, _, _, _, rfl⟩, fun hne => absurd rfl (hne _)⟩
  · next hok =>
    have hparsed : (requestParse conn.mem.reqBuf.contents conn.reqParsed).1.status = .ok := by
      rw [hparse]
      exact not_not.mp hok
    have hrequest : req = (requestParse conn.mem.reqBuf.contents conn.reqParsed).2 := by rw [hparse]
    split at h
    · next h10 =>
      obtain ⟨⟨coding, len, rfl⟩, hframed⟩ := headFraming_spec h
      refine ⟨⟨_, _, _, _, _, rfl⟩, fun hne => ⟨hparsed, hrequest, rfl, ?_, ?_, ?_⟩⟩
      · intro h11
        exact absurd (h10.symm.trans h11) (by simp)
      · exact (if_pos h10).symm
      · exact ⟨(hframed hne).toFramedByHead, (hframed hne).no_length⟩
    · next h11 =>
      split at h
      · obtain ⟨rfl, rfl⟩ := Prod.mk.inj h
        exact ⟨⟨_, _, _, _, _, rfl⟩, fun hne => absurd rfl (hne _)⟩
      · next hhost =>
        obtain ⟨⟨coding, len, rfl⟩, hframed⟩ := headFraming_spec h
        refine ⟨⟨_, _, _, _, _, rfl⟩, fun hne => ⟨hparsed, hrequest, rfl, ?_, ?_, ?_⟩⟩
        · intro _
          exact Option.isSome_iff_ne_none.mpr fun hnone => hhost (by rw [hnone]; rfl)
        · exact (if_neg h11).symm
        · exact ⟨(hframed hne).toFramedByHead, (hframed hne).no_length⟩

end HttpServer
