import HttpServer.PlainReading
import HttpServer.RequestGrammar

/-!
# Bytes behind the head do not matter

`conn_recv_header` looks for the first CRLFCRLF, `request_parse` walks from line to
line. Both stop at the same place, and what `request_parse` answers is settled by
the bytes up to there.
-/

namespace HttpServer

variable {buf : Bytes} {cur fin n t : ℕ}

/-! ## Reads inside the first bytes -/

theorem range_take (h : fin ≤ n) : range (buf.take n) cur fin = range buf cur fin := by
  rw [range, range, List.take_take, Nat.min_eq_left h]

theorem byteAt_take (h : cur < n) : byteAt (buf.take n) cur = byteAt buf cur := by
  simp only [byteAt, List.getD_eq_getElem?_getD]
  rw [List.getElem?_take_of_lt h]

theorem memEq_take {s : Bytes} (h : cur + s.length ≤ n) :
    memEq (buf.take n) cur s = memEq buf cur s := by
  unfold memEq
  rw [List.drop_take, List.take_take, Nat.min_eq_left (by omega)]

theorem memchr_take {c : Byte} (h : fin ≤ n) :
    memchr (buf.take n) cur fin c = memchr buf cur fin c := by
  unfold memchr
  rw [range_take h]

theorem memchr_le {c : Byte} {sp : ℕ} (h : memchr buf cur fin c = some sp) : sp ≤ fin := by
  obtain ⟨u, v, hsplit, -, rfl⟩ := memchr_eq_some_iff.mp h
  have hlen := congrArg List.length hsplit
  rw [range, List.length_drop, List.length_take, List.length_append, List.length_cons] at hlen
  omega

theorem isCrlf_take (h : cur + 2 ≤ n) : isCrlf (buf.take n) cur = isCrlf buf cur := by
  unfold isCrlf
  rw [byteAt_take (by omega), byteAt_take (by omega)]

theorem crlfParse_take (h : cur + 2 ≤ n) (hfin : n ≤ fin) :
    crlfParse (buf.take n) cur n = crlfParse buf cur fin := by
  unfold crlfParse
  rw [isCrlf_take h, decide_eq_true h, decide_eq_true (h.trans hfin)]

/-! ## The line parsers -/

theorem methodParse_take {parsed : HttpRequestLine} (h : fin ≤ n) :
    methodParse (buf.take n) cur fin parsed = methodParse buf cur fin parsed := by
  unfold methodParse
  dsimp only
  by_cases hlt : cur ≥ fin
  · rw [if_pos hlt, if_pos hlt]
  · rw [byteAt_take (by omega), memchr_take h]
    cases hsp : memchr buf cur fin SP with
    | none => rfl
    | some sp =>
      have hle : sp ≤ fin := memchr_le hsp
      have hmethod : httpMethodParse (buf.take n) cur (sp - cur) =
          httpMethodParse buf cur (sp - cur) := by
        rw [← httpMethodParse_range le_rfl, range_take (by omega), httpMethodParse_range le_rfl]
      dsimp only
      rw [hmethod]

theorem uriParse_take {parsed : HttpRequestLine} (h : fin ≤ n) :
    uriParse (buf.take n) cur fin parsed = uriParse buf cur fin parsed := by
  unfold uriParse
  dsimp only
  by_cases hlt : cur ≥ fin
  · rw [if_pos hlt, if_pos hlt]
  · rw [byteAt_take (by omega), memchr_take h]
    cases hsp : memchr buf cur fin SP with
    | none => rfl
    | some sp =>
      have hle : sp ≤ fin := memchr_le hsp
      dsimp only
      rw [range_take (hle.trans h)]

theorem versionParse_take {parsed : HttpRequestLine} (h : fin ≤ n) :
    versionParse (buf.take n) cur fin parsed = versionParse buf cur fin parsed := by
  unfold versionParse
  dsimp only
  by_cases hsize : fin = cur + 8
  · subst hsize
    have hdigits : ∀ s : Bytes, s.length = 3 →
        memEq (buf.take n) (cur + 5) s = memEq buf (cur + 5) s :=
      fun s hs => memEq_take (by omega)
    have hname : memEq (buf.take n) cur (ascii "HTTP/") = memEq buf cur (ascii "HTTP/") :=
      memEq_take (by rw [show (ascii "HTTP/").length = 5 from rfl]; omega)
    rw [hname, hdigits _ rfl, hdigits _ rfl, hdigits _ rfl, byteAt_take (by omega),
      byteAt_take (by omega), byteAt_take (by omega),
      range_take (by rw [show HTTP_VERSION_LEN = 8 from rfl]; exact h)]
  · have hne : (fin : ℤ) - cur ≠ HTTP_VERSION_LEN := by
      simp only [HTTP_VERSION_LEN]
      omega
    rw [if_pos hne, if_pos hne]

theorem requestLineParse_take {parsed : HttpRequestLine} (h : fin ≤ n) :
    requestLineParse (buf.take n) cur fin parsed = requestLineParse buf cur fin parsed := by
  simp only [requestLineParse, methodParse_take h, uriParse_take h, versionParse_take h]

theorem headerKeyParse_take {header : Header} (h : fin < n) :
    headerKeyParse (buf.take n) cur fin header = headerKeyParse buf cur fin header := by
  unfold headerKeyParse
  rw [byteAt_take h, range_take h.le]

theorem headerValueParse_take {header : Header} (h : fin ≤ n) :
    headerValueParse (buf.take n) cur fin header = headerValueParse buf cur fin header := by
  have hskip : owsSkip (buf.take n) cur fin = owsSkip buf cur fin := by
    unfold owsSkip
    rw [range_take h]
  have htrim : owsTrimTrailing (buf.take n) (owsSkip buf cur fin) fin =
      owsTrimTrailing buf (owsSkip buf cur fin) fin := by
    unfold owsTrimTrailing
    rw [range_take h]
  unfold headerValueParse
  dsimp only
  split
  · rfl
  · split
    · rfl
    · next hle =>
      have htrimLe := owsTrimTrailing_le buf (owsSkip_le buf (Nat.not_lt.mp hle))
      rw [hskip, htrim, range_take (htrimLe.trans h)]

theorem headerLineParse_take {headers : List Header} (h : fin < n) :
    headerLineParse (buf.take n) cur fin headers = headerLineParse buf cur fin headers := by
  have hfind : colonFind (buf.take n) cur fin = colonFind buf cur fin := by
    unfold colonFind
    rw [range_take h.le]
  unfold headerLineParse
  by_cases hlt : cur ≥ fin
  · rw [if_pos hlt, if_pos hlt]
  · have hle := colonFind_le buf (Nat.not_le.mp hlt).le
    rw [if_neg hlt, if_neg hlt, hfind, headerKeyParse_take (hle.trans_lt h)]
    simp only [headerValueParse_take h.le]

/-! ## From line to line -/

/-- `t` is where the first empty line begins: the line end before it and its own. -/
structure FirstBlank (buf : Bytes) (t : ℕ) : Prop where
  occurs : range buf t (t + 4) = CRLF ++ CRLF
  inside : t + 4 ≤ buf.length
  first : ∀ k, range buf k (k + 4) = CRLF ++ CRLF → t ≤ k

theorem firstBlank_of_memmem (h : memmem buf HEADER_END = some t) : FirstBlank buf t := by
  have hinside := memmem_add_length_le h
  simp only [memmem] at h
  split at h
  · next hlt =>
    obtain rfl := Option.some.inj h
    have hoccurs : ∀ k, range buf k (k + 4) = CRLF ++ CRLF ↔ HEADER_END <+: buf.drop k := by
      intro k
      rw [range_eq_take, Nat.add_sub_cancel_left, List.prefix_iff_eq_take]
      exact eq_comm
    refine ⟨(hoccurs _).mpr (PatternSearch.prefix_drop_find hlt), hinside, fun k hk => ?_⟩
    by_contra hbefore
    exact PatternSearch.not_prefix_drop_of_lt_find (Nat.not_le.mp hbefore) ((hoccurs k).mp hk)
  · cases h

theorem range_drop (buf : Bytes) (cur fin k : ℕ) :
    (range buf cur fin).drop k = range buf (cur + k) fin := List.drop_drop

/-- A line that begins up to `t` ends there at the latest, whatever follows. -/
theorem FirstBlank.crlfFind (h : FirstBlank buf t) (hcur : cur ≤ t) (hfin : t + 4 ≤ fin) :
    ∃ e, crlfFind buf cur fin = e ∧ crlfFind (buf.take (t + 4)) cur (t + 4) = e ∧ cur ≤ e ∧
      range buf e (e + 2) = CRLF ∧ (e + 2 ≤ t ∨ e = t) := by
  have hblank : CRLF <+: (range buf cur (t + 4)).drop (t - cur) := by
    rw [range_drop, show cur + (t - cur) = t by omega, h.occurs]
    exact List.prefix_append _ _
  have hlen : (range buf cur (t + 4)).length = t + 4 - cur := length_range h.inside
  have hle : PatternSearch.find CRLF (range buf cur (t + 4)) ≤ t - cur := by
    by_contra hlt
    exact PatternSearch.not_prefix_drop_of_lt_find (Nat.not_le.mp hlt) hblank
  have hfound : PatternSearch.find CRLF (range buf cur (t + 4)) <
      (range buf cur (t + 4)).length := by omega
  have hwhole : PatternSearch.find CRLF (range buf cur fin) =
      PatternSearch.find CRLF (range buf cur (t + 4)) := by
    rw [range_append (by omega : cur ≤ t + 4) hfin, PatternSearch.find_append hfound]
  obtain ⟨rest, hrest⟩ := PatternSearch.prefix_drop_find hfound
  rw [range_drop] at hrest
  refine ⟨cur + PatternSearch.find CRLF (range buf cur (t + 4)), congrArg (cur + ·) hwhole, ?_,
    Nat.le_add_right _ _, ?_, ?_⟩
  · exact congrArg (fun u => cur + PatternSearch.find CRLF u) (range_take le_rfl)
  · exact (range_split h.inside (by omega) hrest.symm).1
  · generalize PatternSearch.find CRLF (range buf cur (t + 4)) = m at hle hrest
    obtain ⟨hcrlf, -, -⟩ := range_split h.inside (by omega) hrest.symm
    rw [CRLF_length] at hcrlf
    have hne : cur + m + 1 ≠ t := by
      intro heq
      have hinside := h.inside
      rw [range_cons (by omega) (by omega)] at hcrlf
      have hlf := byteAt_range_head (by omega) (by omega) (List.cons.inj hcrlf).2
      have hcr := byteAt_range_head (by omega) h.inside h.occurs
      rw [heq, hcr] at hlf
      cases hlf
    omega

/-! ## The whole head -/

/-- A line end that does not begin the empty line stands before it. -/
theorem FirstBlank.before {k : ℕ} (h : FirstBlank buf t) (hfin : t + 4 ≤ fin)
    (hlen : fin ≤ buf.length) (hk : k + 2 ≤ t ∨ k = t)
    (heol : ¬ (crlfParse buf (k + 2) fin).status = .ok) : k + 2 ≤ t := by
  refine hk.resolve_right fun heq => heol ?_
  refine (crlfParse_ok_iff hlen).mpr ⟨by omega, ?_⟩
  have hoccurs := h.occurs
  rw [heq]
  exact (range_split h.inside (by omega) hoccurs).2.1

/-- From a line that begins behind a line end the two walks are the same, and an accepted head
ends behind the first empty line. -/
theorem requestParseLoop_take (h : FirstBlank buf t) (fuel fuel' : ℕ) {k : ℕ}
    (headerRes : ParseResult) (headers : List Header) (hfin : t + 4 ≤ fin)
    (hlen : fin ≤ buf.length) (hcrlf : range buf k (k + 2) = CRLF) (hk : k + 2 ≤ t ∨ k = t)
    (hfuel : t + 4 < fuel + (k + 2)) (hfuel' : t + 4 < fuel' + (k + 2)) :
    requestParseLoop (buf.take (t + 4)) (t + 4) fuel' (k + 2) headerRes headers =
        requestParseLoop buf fin fuel (k + 2) headerRes headers ∧
      ((requestParseLoop buf fin fuel (k + 2) headerRes headers).1.status = .ok →
        (requestParseLoop buf fin fuel (k + 2) headerRes headers).1.next = some (t + 4)) := by
  induction fuel generalizing fuel' k headerRes headers with
  | zero => omega
  | succ fuel ih =>
    obtain ⟨fuel', rfl⟩ : ∃ j, fuel' = j + 1 := ⟨fuel' - 1, by omega⟩
    have hinside := h.inside
    rw [requestParseLoop, requestParseLoop, crlfParse_take (by omega) hfin]
    dsimp only
    by_cases heol : (crlfParse buf (k + 2) fin).status = .ok
    · rw [if_pos heol, if_pos heol, crlfParse_of_ok heol]
      refine ⟨rfl, fun _ => ?_⟩
      have hblank := ((crlfParse_ok_iff hlen).mp heol).2
      have hfirst := h.first k (by
        rw [range_append (Nat.le_add_right k 2) (by omega : k + 2 ≤ k + 4), hcrlf, hblank])
      rw [hk.resolve_left (by omega)]
    · rw [if_neg heol, if_neg heol]
      have hbefore := h.before hfin hlen hk heol
      obtain ⟨e, hfind, hfind', hcur, hend, he⟩ := h.crlfFind hbefore hfin
      rw [hfind, hfind', headerLineParse_take (by omega)]
      generalize hline : headerLineParse buf (k + 2) e headers = lineRes
      obtain ⟨lineRes, headers₁⟩ := lineRes
      dsimp only
      by_cases hok : lineRes.status = .ok
      · obtain ⟨header, -, -, -, rfl⟩ :=
          (headerLineParse_ok_iff headers hcur (by omega)).mp ⟨hline, hok⟩
        have hcrlfOk : (crlfParse buf e fin).status = .ok :=
          (crlfParse_ok_iff hlen).mpr ⟨by omega, hend⟩
        rw [Option.getD_some, crlfParse_take (by omega) hfin, crlfParse_of_ok hcrlfOk]
        exact ih fuel' _ _ hend he (by omega) (by omega)
      · rw [if_pos hok, if_pos hok]
        exact ⟨rfl, fun h => absurd h hok⟩

theorem take_owsTrimTrailing (h : FirstBlank buf t) :
    owsTrimTrailing (buf.take (t + 4)) 0 (t + 4) = t + 4 ∧
      t + 4 ≤ owsTrimTrailing buf 0 buf.length := by
  have hends : buf.take (t + 4) = buf.take t ++ CRLF ++ [CR] ++ [LF] := by
    have hwhole : buf.take (t + 4) = range buf 0 (t + 4) := List.drop_zero.symm
    rw [hwhole, range_append (Nat.zero_le t) (Nat.le_add_right t 4), h.occurs]
    simp [range, CRLF]
  have hlen : (buf.take (t + 4)).length = t + 4 := by
    rw [List.length_take, Nat.min_eq_left h.inside]
  have hfront := congrArg List.length hends
  rw [hlen, List.length_append, List.length_singleton] at hfront
  have hself : (buf.take t ++ CRLF ++ [CR]).length + 1 ≤
      owsTrimTrailing (buf.take (t + 4)) 0 (buf.take (t + 4)).length :=
    le_owsTrimTrailing (hends.symm ▸ List.prefix_refl _)
  have hwhole := le_owsTrimTrailing (hends ▸ List.take_prefix (t + 4) buf)
  have hle := owsTrimTrailing_le (buf.take (t + 4)) (Nat.zero_le (t + 4))
  rw [hlen] at hself
  omega

theorem requestParse_take (h : FirstBlank buf t) (req : HttpRequest) :
    requestParse (buf.take (t + 4)) req = requestParse buf req ∧
      ((requestParse buf req).1.status = .ok →
        (requestParse buf req).1.next = some (t + 4)) := by
  obtain ⟨htrim, htrim'⟩ := take_owsTrimTrailing h
  have hlen : (buf.take (t + 4)).length = t + 4 := by
    rw [List.length_take, Nat.min_eq_left h.inside]
  have hfin := owsTrimTrailing_le buf (Nat.zero_le buf.length)
  unfold requestParse
  rw [hlen, htrim]
  dsimp only
  generalize owsTrimTrailing buf 0 buf.length = fin at htrim' hfin
  obtain ⟨e, hfind, hfind', -, hend, he⟩ := h.crlfFind (Nat.zero_le t) htrim'
  rw [hfind, hfind', requestLineParse_take (by omega)]
  generalize hline : requestLineParse buf 0 e req.requestLine = lineRes
  obtain ⟨lineRes, line⟩ := lineRes
  dsimp only
  by_cases hok : lineRes.status = .ok
  · obtain ⟨-, rfl⟩ := (requestLineParse_ok_iff req.requestLine (Nat.zero_le e)
      (by have := h.inside; omega)).mp ⟨hline, hok⟩
    have hcrlfOk : (crlfParse buf e fin).status = .ok :=
      (crlfParse_ok_iff hfin).mpr ⟨by omega, hend⟩
    rw [Option.getD_some, crlfParse_take (by omega) htrim', crlfParse_of_ok hcrlfOk]
    have hinside := h.inside
    obtain ⟨hloop, hnext⟩ := requestParseLoop_take h (buf.length + 1) (t + 4 + 1) {} req.headers
      htrim' hfin hend he (by omega) (by omega)
    rw [if_neg (not_not.mpr rfl), if_neg (not_not.mpr rfl), if_neg (not_not.mpr rfl),
      if_neg (not_not.mpr rfl), Option.getD_some, hloop]
    exact ⟨rfl, hnext⟩
  · rw [if_pos hok, if_pos hok]
    exact ⟨rfl, fun h => absurd h hok⟩

theorem memmem_of_infix (h : HEADER_END <:+: buf) : ∃ t, memmem buf HEADER_END = some t := by
  obtain ⟨front, back, hsplit⟩ := h
  have hlt : PatternSearch.find HEADER_END buf < buf.length := by
    by_contra hge
    have hlen := congrArg List.length hsplit
    rw [List.length_append, List.length_append] at hlen
    have hpos : HEADER_END.length = 4 := rfl
    refine PatternSearch.not_prefix_drop_of_lt_find (i := front.length)
      (show _ < PatternSearch.find HEADER_END buf by omega) ?_
    rw [← hsplit, List.append_assoc, List.drop_left]
    exact List.prefix_append _ _
  exact ⟨PatternSearch.find HEADER_END buf, if_pos hlt⟩

theorem requestParse_header_end (fd : ℤ) (b : HttpBuffer) (io : Io) (req : HttpRequest)
    (h : HEADER_END <:+: b.contents) :
    ∃ bodyStart, (connRecvHeader fd b io).1 =
        { status := .ok, totalReceived := b.size, bodyStart := bodyStart } ∧
      (connRecvHeader fd b io).2.1 = b ∧
      requestParse (b.contents.take bodyStart) req = requestParse b.contents req ∧
      ((requestParse b.contents req).1.status = .ok →
        (requestParse b.contents req).1.next = some bodyStart) := by
  obtain ⟨terminator, hfind⟩ := memmem_of_infix h
  refine ⟨terminator + 4, ?_, ?_, requestParse_take (firstBlank_of_memmem hfind) req⟩
  · rw [connRecvHeader, connRecvHeaderLoop.eq_def]
    simp only [hfind]
  · rw [connRecvHeader, connRecvHeaderLoop.eq_def]
    simp only [hfind]

/-- A head with a pipelined request and white space behind it. -/
def pipelinedHead : HttpBuffer :=
  { cap := 30
    size := 23
    address := some 0
    storage := ascii "GET / HTTP/1.1" ++ CRLF ++ CRLF ++ ascii "PUT  " }

theorem requestParse_header_end_pipelined :
    requestParse (ascii "GET / HTTP/1.1" ++ CRLF ++ CRLF) {} =
        requestParse pipelinedHead.contents {} ∧
      (requestParse pipelinedHead.contents {}).1.next = some 18 := by
  obtain ⟨bodyStart, hres, -, htake, hnext⟩ :=
    requestParse_header_end 3 pipelinedHead {} {} (by decide +kernel)
  have hstart : (connRecvHeader 3 pipelinedHead {}).1.bodyStart = 18 := by decide +kernel
  obtain rfl : bodyStart = 18 := by rw [← hstart, hres]
  have hhead : pipelinedHead.contents.take 18 = ascii "GET / HTTP/1.1" ++ CRLF ++ CRLF := by
    decide +kernel
  rw [hhead] at htake
  exact ⟨htake, hnext (by decide +kernel)⟩

end HttpServer
