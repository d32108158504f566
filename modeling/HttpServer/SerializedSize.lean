import HttpServer.Serializing
import HttpServer.Turns

/-!
# The size of a serialized response

The serializer never writes past the end of its buffer. An error response always
fits into a response buffer, whatever the clock says.
-/

namespace HttpServer

variable {cap : ℕ} {o : Out} {s : Bytes} {now : ℤ} {keepAlive : Bool} {resp : HttpResponse}

/-! ## Inside the buffer -/

/-- Unless it has failed, the writer stands inside the buffer, so that `buffer_size - offset` does
not wrap. -/
def Out.Within (cap : ℕ) (o : Out) : Prop := o.failed = false → o.offset ≤ cap

theorem Out.Within.require (h : o.Within cap) (b : Out → Bool) : (o.require b).Within cap := by
  intro hfailed
  obtain ⟨heq, hok, -⟩ := Out.require_eq hfailed
  rw [heq]
  exact h hok

theorem Out.put_within (bs : Bytes) (n : ℕ) (h : o.failed = false → o.offset + n ≤ cap) :
    (o.put bs n).Within cap := by
  intro hfailed
  rw [Out.put_failed] at hfailed
  rw [Out.put, hfailed, if_neg Bool.false_ne_true]
  exact h hfailed

theorem Out.put_offset {bs : Bytes} {n : ℕ} (h : o.failed = false) :
    (o.put bs n).offset = o.offset + n := by
  rw [Out.put, h, if_neg Bool.false_ne_true]

theorem Out.Within.snprintf (h : o.Within cap) (slack : ℕ) (s : Bytes) :
    (o.snprintf cap slack s).Within cap := by
  intro hfailed
  obtain ⟨heq, hok, hfits⟩ := Out.require_eq hfailed
  rw [Out.put_failed] at hok
  have hoffset := h hok
  have hfits : s.length + slack ≤ cap - o.offset := by simpa using hfits
  rw [Out.snprintf, heq, Out.put_offset hok]
  omega

theorem Out.strftime_within (s : Bytes) : (o.strftime cap s).Within cap := by
  refine Out.put_within _ _ fun hfailed => ?_
  obtain ⟨heq, -, hfits⟩ := Out.require_eq hfailed
  have hfits : s.length < cap - o.offset := by simpa using hfits
  rw [heq]
  omega

theorem Out.memcpy_within (s : Bytes) : (o.memcpy cap s).Within cap := by
  refine Out.put_within _ _ fun hfailed => ?_
  obtain ⟨heq, -, hfits⟩ := Out.require_eq hfailed
  rw [heq]
  simpa using hfits

theorem Out.blankLine_within : (responseBlankLineWrite cap o).Within cap := by
  refine Out.put_within _ _ fun hfailed => ?_
  obtain ⟨heq, -, hfits⟩ := Out.require_eq hfailed
  have hfits : o.offset + 2 < cap := by simpa using hfits
  rw [heq]
  omega

/-! ## The states of the serializer -/

/-- The state after each write of the `switch` on the kind of body. -/
def bodyStages (cap : ℕ) (resp : HttpResponse) (o : Out) : List Out :=
  match resp.body with
  | .buffer _ size =>
    let framed := if !sawContentLength resp.headers && 0 < size then
        o.snprintf cap 1 (contentLengthLine size) else o
    [framed, responseBlankLineWrite cap framed, responseBodyWrite cap resp o]
  | .none => [responseBodyWrite cap resp o]
  | .stream _ => [o.memcpy cap transferEncodingChunked, responseBodyWrite cap resp o]

/-- The state before and after each write of `response_serialize`. -/
def serializeStages (resp : HttpResponse) (cap : ℕ) (keepAlive : Bool) (now : ℤ) : List Out :=
  let start := ({} : Out).snprintf cap 0 (startLine resp)
  let date := responseCurrentTimeWrite cap now start
  let headers := resp.headers.foldl (fun o header => responseHeaderWrite cap header o) date
  let connection := responseHeaderConnectionWrite cap keepAlive headers
  [{}, start] ++ resp.headers.scanl (fun o header => responseHeaderWrite cap header o) date ++
    [connection] ++ bodyStages cap resp connection

theorem bodyStages_getLast? (cap : ℕ) (resp : HttpResponse) (o : Out) :
    (bodyStages cap resp o).getLast? = some (responseBodyWrite cap resp o) := by
  unfold bodyStages
  split <;> rfl

/-- The last state is what the serializer returns. -/
theorem serializeStages_getLast? (resp : HttpResponse) (cap : ℕ) (keepAlive : Bool) (now : ℤ) :
    (serializeStages resp cap keepAlive now).getLast? =
      some (responseSerialize resp cap keepAlive now) := by
  unfold serializeStages
  rw [List.getLast?_append, bodyStages_getLast?]
  rfl

/-- A property that every write into a buffer of this size keeps. -/
structure WriteInvariant (cap : ℕ) (inv : Out → Prop) : Prop where
  require : ∀ {o : Out} (b : Out → Bool), inv o → inv (o.require b)
  snprintf : ∀ {o : Out} (slack : ℕ) (s : Bytes), inv o → inv (o.snprintf cap slack s)
  strftime : ∀ {o : Out} (s : Bytes), inv o → inv (o.strftime cap s)
  memcpy : ∀ {o : Out} (s : Bytes), inv o → inv (o.memcpy cap s)
  blankLine : ∀ {o : Out}, inv o → inv (responseBlankLineWrite cap o)

variable {inv : Out → Prop}

theorem WriteInvariant.foldl_headers (h : WriteInvariant cap inv) (ho : inv o)
    (headers : List ResponseHeader) :
    inv (headers.foldl (fun o header => responseHeaderWrite cap header o) o) := by
  induction headers generalizing o with
  | nil => exact ho
  | cons header headers ih => exact ih (h.snprintf 1 (headerText header) ho)

theorem WriteInvariant.headers (h : WriteInvariant cap inv) (ho : inv o)
    (headers : List ResponseHeader) :
    ∀ o' ∈ headers.scanl (fun o header => responseHeaderWrite cap header o) o, inv o' := by
  induction headers generalizing o with
  | nil =>
    intro o' ho'
    rw [List.scanl_nil, List.mem_singleton] at ho'
    rwa [ho']
  | cons header headers ih =>
    intro o' ho'
    rw [List.scanl_cons, List.mem_cons] at ho'
    rcases ho' with rfl | ho'
    · exact ho
    · exact ih (h.snprintf 1 (headerText header) ho) o' ho'

theorem WriteInvariant.body (h : WriteInvariant cap inv) (ho : inv o) (resp : HttpResponse) :
    ∀ o' ∈ bodyStages cap resp o, inv o' := by
  have hframed : ∀ size, inv (if !sawContentLength resp.headers && decide (0 < size) then
      o.snprintf cap 1 (contentLengthLine size) else o) := by
    intro size
    split
    · exact h.snprintf 1 _ ho
    · exact ho
  unfold bodyStages responseBodyWrite
  cases resp.body with
  | none =>
    intro o' ho'
    rw [List.mem_singleton.mp ho']
    exact h.blankLine ho
  | stream stream =>
    intro o' ho'
    simp only [List.mem_cons, List.not_mem_nil, or_false] at ho'
    rcases ho' with rfl | rfl
    · exact h.memcpy _ ho
    · exact h.blankLine (h.memcpy _ ho)
  | buffer body size =>
    intro o' ho'
    simp only [List.mem_cons, List.not_mem_nil, or_false] at ho'
    have hblank := h.blankLine (hframed size)
    rcases ho' with rfl | rfl | rfl
    · exact hframed size
    · exact hblank
    · cases body with
      | none => exact hblank
      | some bytes =>
        dsimp only
        split
        · exact h.memcpy _ hblank
        · exact hblank

/-- It holds of every state of the serializer. -/
theorem WriteInvariant.stages (h : WriteInvariant cap inv) (hempty : inv {}) (resp : HttpResponse)
    (keepAlive : Bool) (now : ℤ) : ∀ o ∈ serializeStages resp cap keepAlive now, inv o := by
  have hstart := h.snprintf 0 (startLine resp) hempty
  have hdate : inv (responseCurrentTimeWrite cap now
      (({} : Out).snprintf cap 0 (startLine resp))) := h.strftime _ (h.require _ hstart)
  have hconnection := h.require (fun o => o.offset < cap)
    (h.memcpy (connectionLine keepAlive) (h.foldl_headers hdate resp.headers))
  intro o ho
  unfold serializeStages at ho
  simp only [List.mem_append, List.mem_cons, List.not_mem_nil, or_false] at ho
  rcases ho with ((((rfl | rfl) | ho) | rfl) | ho)
  · exact hempty
  · exact hstart
  · exact h.headers hdate resp.headers o ho
  · exact hconnection
  · exact h.body hconnection resp o ho

theorem within_writeInvariant (cap : ℕ) : WriteInvariant cap (Out.Within cap) where
  require b h := h.require b
  snprintf slack s h := h.snprintf slack s
  strftime s _ := Out.strftime_within s
  memcpy s _ := Out.memcpy_within s
  blankLine _ := Out.blankLine_within

/-- No subtraction of the serializer wraps. -/
theorem serializeStages_within (resp : HttpResponse) (cap : ℕ) (keepAlive : Bool) (now : ℤ) :
    ∀ o ∈ serializeStages resp cap keepAlive now, o.Within cap :=
  (within_writeInvariant cap).stages (fun _ => Nat.zero_le _) resp keepAlive now

theorem responseSerialize_within (resp : HttpResponse) (cap : ℕ) (keepAlive : Bool) (now : ℤ) :
    (responseSerialize resp cap keepAlive now).Within cap :=
  serializeStages_within resp cap keepAlive now _
    (List.mem_of_getLast? (serializeStages_getLast? resp cap keepAlive now))

/-- A response that has been serialized is not empty and fits. -/
theorem responseSerialize_length {text : Bytes}
    (h : (responseSerialize resp cap keepAlive now).result = some text) :
    0 < text.length ∧ text.length ≤ cap := by
  have hok : (responseSerialize resp cap keepAlive now).failed = false := by
    unfold Out.result at h
    split at h
    · cases h
    · next hok => exact Bool.not_eq_true _ ▸ hok
  obtain ⟨hoffset, -⟩ := responseSerialize_holds resp cap keepAlive now hok
  have hwithin := responseSerialize_within resp cap keepAlive now hok
  rw [(responseSerialize_holds resp cap keepAlive now).result h]
  refine ⟨?_, hoffset ▸ hwithin⟩
  simp [responseText, responseHeadText, startLine, HTTP_1_1, ascii]

/-! ## The list of allowed methods -/

/-- The texts in `allow_buf` in front of the calls of `strncat`. -/
def allowStages (cap : ℕ) (first : Bool) (buf : Bytes) : List Bytes → List Bytes
  | [] => []
  | method :: rest =>
    let sep := if first then buf else strncat cap buf (ascii ", ")
    buf :: sep :: allowStages cap false (strncat cap sep method) rest

theorem strncat_length {buf : Bytes} (h : buf.length < cap) (s : Bytes) :
    (strncat cap buf s).length < cap := by
  rw [strncat, List.length_append, List.length_take]
  omega

theorem allowStages_length {buf : Bytes} (h : buf.length < cap) (first : Bool)
    (allowed : List Bytes) : ∀ text ∈ allowStages cap first buf allowed, text.length < cap := by
  induction allowed generalizing buf first with
  | nil => simp [allowStages]
  | cons method rest ih =>
    have hsep : (if first then buf else strncat cap buf (ascii ", ")).length < cap := by
      split
      · exact h
      · exact strncat_length h _
    intro text htext
    simp only [allowStages, List.mem_cons] at htext
    rcases htext with rfl | rfl | htext
    · exact h
    · exact hsep
    · exact ih (strncat_length hsep method) false text htext

/-! ## Responses that fit -/

/-- The writer has not failed and has advanced over `s`. -/
structure Out.Fits (s : Bytes) (o : Out) : Prop where
  ok : o.failed = false
  offset : o.offset = s.length

theorem Out.Fits.require (h : o.Fits s) {b : Out → Bool} (hb : b o = true) :
    (o.require b).Fits s := by
  rw [Out.require, hb, Bool.or_true, if_pos rfl]
  exact h

theorem Out.Fits.put (h : o.Fits s) (bs t : Bytes) : (o.put bs t.length).Fits (s ++ t) := by
  refine ⟨(Out.put_failed _ _ _).trans h.ok, ?_⟩
  rw [Out.put_offset h.ok, h.offset, List.length_append]

theorem Out.Fits.snprintf (h : o.Fits s) {slack : ℕ} {t : Bytes}
    (hroom : s.length + t.length + slack ≤ cap) : (o.snprintf cap slack t).Fits (s ++ t) := by
  unfold Out.snprintf
  refine Out.Fits.require (h.put _ t) ?_
  rw [h.offset, decide_eq_true_eq]
  omega

theorem Out.Fits.strftime (h : o.Fits s) {t : Bytes} (hroom : s.length + t.length < cap) :
    (o.strftime cap t).Fits (s ++ t) := by
  refine (h.require ?_).put _ t
  rw [h.offset, decide_eq_true_eq]
  omega

theorem Out.Fits.memcpy (h : o.Fits s) {t : Bytes} (hroom : s.length + t.length ≤ cap) :
    (o.memcpy cap t).Fits (s ++ t) := by
  refine (h.require ?_).put _ t
  rw [h.offset, decide_eq_true_eq]
  exact hroom

theorem Out.Fits.blankLine (h : o.Fits s) (hroom : s.length + 2 < cap) :
    (responseBlankLineWrite cap o).Fits (s ++ CRLF) := by
  refine (h.require ?_).put _ CRLF
  rw [h.offset, decide_eq_true_eq]
  exact hroom

theorem Out.Fits.date (h : o.Fits s) (hnow : now ≠ -1)
    (hroom : s.length + (dateLine now).length < cap) :
    (responseCurrentTimeWrite cap now o).Fits (s ++ dateLine now) := by
  have hread : (o.require fun _ => now != -1).Fits s := h.require (bne_iff_ne.mpr hnow)
  exact hread.strftime hroom

theorem Out.Fits.connection (h : o.Fits s)
    (hroom : s.length + (connectionLine keepAlive).length < cap) :
    (responseHeaderConnectionWrite cap keepAlive o).Fits (s ++ connectionLine keepAlive) := by
  have hwritten := h.memcpy hroom.le
  refine hwritten.require ?_
  rw [hwritten.offset, decide_eq_true_eq, List.length_append]
  exact hroom

theorem Out.Fits.buffer {bytes : Bytes} {size : ℕ} (h : o.Fits s)
    (hbody : resp.body = .buffer (some bytes) size)
    (hroom : s.length + (contentLengthLine size).length + size + 3 ≤ cap) :
    (responseBodyWrite cap resp o).failed = false := by
  unfold responseBodyWrite
  rw [hbody]
  dsimp only
  have hframed : ∃ framing, framing.length ≤ (contentLengthLine size).length ∧
      (if !sawContentLength resp.headers && decide (0 < size) then
        o.snprintf cap 1 (contentLengthLine size) else o).Fits (s ++ framing) := by
    split
    · exact ⟨contentLengthLine size, le_rfl, h.snprintf (by omega)⟩
    · exact ⟨[], Nat.zero_le _, by rwa [List.append_nil]⟩
  obtain ⟨framing, hle, hframed⟩ := hframed
  have hline : (s ++ framing).length + 2 < cap := by
    rw [List.length_append]
    omega
  have hblank := hframed.blankLine hline
  split
  · refine (hblank.memcpy ?_).ok
    simp only [List.length_append, List.length_take, CRLF_length]
    omega
  · exact hblank.ok

/-- A short response without headers of its own. -/
theorem responseSerialize_fits {bytes : Bytes} {size : ℕ}
    (hbody : resp.body = .buffer (some bytes) size) (hheaders : resp.headers = [])
    (hnow : now ≠ -1)
    (hroom : (startLine resp).length + (dateLine now).length + (connectionLine keepAlive).length +
      (contentLengthLine size).length + size + 3 ≤ cap) :
    (responseSerialize resp cap keepAlive now).failed = false := by
  have hempty : ({} : Out).Fits [] := ⟨rfl, rfl⟩
  have hfirst : ([] : Bytes).length + (startLine resp).length + 0 ≤ cap := by
    rw [List.length_nil]
    omega
  have hsecond : ([] ++ startLine resp).length + (dateLine now).length < cap := by
    rw [List.nil_append]
    omega
  have hthird : ([] ++ startLine resp ++ dateLine now).length +
      (connectionLine keepAlive).length < cap := by
    rw [List.nil_append, List.length_append]
    omega
  have hconnection := ((hempty.snprintf hfirst).date hnow hsecond).connection hthird
  unfold responseSerialize
  rw [hheaders]
  refine hconnection.buffer hbody ?_
  simp only [List.nil_append, List.length_append]
  omega

/-! ## Error responses -/

/-- A reading of the clock that is not the failure `-1`, in the range of `time_t`. -/
def TimeReading (now : ℤ) : Prop := now ≠ -1 ∧ -2 ^ 63 ≤ now ∧ now < 2 ^ 63

instance (now : ℤ) : Decidable (TimeReading now) := instDecidableAnd

theorem showNat_length {n k : ℕ} (hk : 0 < k) (h : n < 10 ^ k) : (showNat n).length ≤ k := by
  rw [showNat, List.length_map]
  exact (Nat.length_toDigits_le_iff (by decide) hk).mpr h

theorem showTwo_length {n : ℤ} (h : n < 10 ^ 6) : (showTwo n).length ≤ 6 := by
  have htens : (showNat (n / 10).toNat).length ≤ 5 := showNat_length (by decide) (by omega)
  have hones : (showNat (n % 10).toNat).length ≤ 1 := showNat_length (by decide) (by omega)
  rw [showTwo, List.length_append]
  omega

theorem showInt_length {n : ℤ} (h : n.natAbs < 10 ^ 12) : (showInt n).length ≤ 13 := by
  have hdigits : (showNat n.natAbs).length ≤ 12 := showNat_length (by decide) h
  unfold showInt
  split
  · rw [List.length_cons]
    omega
  · omega

theorem gmtime_bounds (h : TimeReading now) :
    (gmtime now).mday < 10 ^ 6 ∧ (gmtime now).year.natAbs < 10 ^ 12 ∧ (gmtime now).hour < 10 ^ 6 ∧
      (gmtime now).min < 10 ^ 6 ∧ (gmtime now).sec < 10 ^ 6 := by
  obtain ⟨-, hlow, hhigh⟩ := h
  simp only [gmtime]
  refine ⟨?_, ?_, ?_, ?_, ?_⟩
  · omega
  · split <;> omega
  · omega
  · omega
  · omega

theorem dateLine_length (h : TimeReading now) : (dateLine now).length ≤ 64 := by
  obtain ⟨hmday, hyear, hhour, hmin, hsec⟩ := gmtime_bounds h
  have h₁ := showTwo_length hmday
  have h₂ := showInt_length hyear
  have h₃ := showTwo_length hhour
  have h₄ := showTwo_length hmin
  have h₅ := showTwo_length hsec
  have hliterals : (ascii "Date: ").length = 6 ∧ (ascii ", ").length = 2 ∧
      (ascii " GMT").length = 4 := by decide
  simp only [dateLine, httpDateFormat, strftimeHttp, List.length_append, List.length_take,
    List.length_cons, List.length_nil, CRLF_length, hliterals]
  omega

theorem connectionLine_length (keepAlive : Bool) : (connectionLine keepAlive).length ≤ 24 := by
  cases keepAlive <;> decide

/-- The start lines and bodies of the canned errors. -/
theorem responseErrorFromStatus_spec (status : ParseStatus) :
    (responseErrorFromStatus status).headers = [] ∧
      (startLine (responseErrorFromStatus status)).length ≤ 64 ∧
      ∃ bytes size, (responseErrorFromStatus status).body = .buffer (some bytes) size ∧
        size ≤ 64 := by
  cases status <;>
    exact ⟨rfl, by decide, _, _, rfl, by decide⟩

theorem responseErrorFromStatus_fits (status : ParseStatus) (keepAlive : Bool)
    (hnow : TimeReading now) :
    (responseSerialize (responseErrorFromStatus status) HTTP_RESPONSE_BUFFER_SIZE keepAlive
      now).failed = false := by
  obtain ⟨hheaders, hstart, bytes, size, hbody, hsize⟩ := responseErrorFromStatus_spec status
  refine responseSerialize_fits hbody hheaders hnow.1 ?_
  have hdate := dateLine_length hnow
  have hconnection := connectionLine_length keepAlive
  have hdigits : (showNat size).length ≤ 2 := showNat_length (by decide) (by omega)
  have hlength : (contentLengthLine size).length ≤ 20 := by
    have hliteral : (ascii "Content-Length: ").length = 16 := by decide
    rw [contentLengthLine, List.length_append, List.length_append, CRLF_length, hliteral]
    omega
  have hcap : HTTP_RESPONSE_BUFFER_SIZE = 8192 := rfl
  omega

/-! ## The clock -/

/-- The clock does not fail. -/
def Io.Timely (io : Io) : Prop := ∀ now ∈ io.clock, TimeReading now

theorem Io.Timely.time {io : Io} (h : io.Timely) : TimeReading io.time.1 ∧ io.time.2.Timely := by
  unfold Io.time
  cases hclock : io.clock with
  | nil =>
    have hzero : TimeReading 0 := by decide
    exact ⟨hzero, h⟩
  | cons now rest =>
    unfold Io.Timely at h
    rw [hclock] at h
    exact ⟨h now (List.mem_cons_self ..), fun now' hnow' => h now' (List.mem_cons_of_mem _ hnow')⟩

theorem responseSerializeNow_timely {io : Io} (h : io.Timely) (resp : HttpResponse) (cap : ℕ)
    (keepAlive : Bool) :
    ∃ now, TimeReading now ∧
      (responseSerializeNow resp cap keepAlive io).1 = responseSerialize resp cap keepAlive now ∧
      (responseSerializeNow resp cap keepAlive io).2.Timely ∧
      (responseSerializeNow resp cap keepAlive io).2.log = io.log := by
  obtain ⟨hnow, htimely⟩ := h.time
  unfold responseSerializeNow
  split
  · exact ⟨_, hnow, rfl, htimely, visible_time io⟩
  · exact ⟨0, by decide, rfl, h, rfl⟩

end HttpServer
