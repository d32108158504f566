import HttpServer.ConnectionLayout
import HttpServer.SerializedSize

/-!
# Responses are serialized whole or not at all

The serializer never stores past the end of its buffer, it succeeds with exactly the
text of the response, and it succeeds whenever that text is shorter than the buffer,
unless the clock fails. So `step_response_build` leaves a whole response behind.
-/

namespace HttpServer

variable {σ : Type*} {cap : ℕ} {o : Out} {s : Bytes} {now : ℤ} {keepAlive : Bool}
  {resp : HttpResponse}

/-! ## Nothing is stored past the end -/

/-- The writer and everything it has stored are inside the buffer. -/
structure Out.Inside (cap : ℕ) (o : Out) : Prop where
  within : o.Within cap
  stored : o.mem.length ≤ cap

theorem Out.require_mem (b : Out → Bool) (o : Out) : (o.require b).mem = o.mem := by
  unfold Out.require
  split <;> rfl

theorem Out.Inside.require (h : o.Inside cap) (b : Out → Bool) : (o.require b).Inside cap :=
  ⟨h.within.require b, (Out.require_mem b o).symm ▸ h.stored⟩

theorem Out.put_stored (h : o.mem.length ≤ cap) {bs : Bytes} {n : ℕ}
    (hroom : o.failed = false → o.offset + bs.length ≤ cap) : (o.put bs n).mem.length ≤ cap := by
  unfold Out.put
  split
  · exact h
  · next hok =>
    have hfits := hroom (by simpa using hok)
    rw [List.length_append, List.length_take]
    omega

theorem Out.Inside.snprintf (h : o.Inside cap) (slack : ℕ) (s : Bytes) :
    (o.snprintf cap slack s).Inside cap := by
  refine ⟨h.within.snprintf slack s, ?_⟩
  have hstored : (o.put (if cap - o.offset = 0 then [] else s.take (cap - o.offset - 1) ++ [0])
      s.length).mem.length ≤ cap := by
    refine Out.put_stored h.stored fun hok => ?_
    have hoffset := h.within hok
    split
    · exact hoffset
    · rw [List.length_append, List.length_take, List.length_singleton]
      omega
  rw [Out.snprintf, Out.require_mem]
  exact hstored

theorem Out.Inside.strftime (h : o.Inside cap) (s : Bytes) : (o.strftime cap s).Inside cap := by
  refine ⟨Out.strftime_within s, ?_⟩
  refine Out.put_stored (h.require _).stored fun hok => ?_
  obtain ⟨heq, -, hfits⟩ := Out.require_eq hok
  have hfits : s.length < cap - o.offset := by simpa using hfits
  rw [heq, List.length_append, List.length_singleton]
  omega

theorem Out.Inside.memcpy (h : o.Inside cap) (s : Bytes) : (o.memcpy cap s).Inside cap := by
  refine ⟨Out.memcpy_within s, ?_⟩
  refine Out.put_stored (h.require _).stored fun hok => ?_
  obtain ⟨heq, -, hfits⟩ := Out.require_eq hok
  rw [heq]
  simpa using hfits

theorem Out.Inside.blankLine (h : o.Inside cap) : (responseBlankLineWrite cap o).Inside cap := by
  refine ⟨Out.blankLine_within, ?_⟩
  refine Out.put_stored (h.require _).stored fun hok => ?_
  obtain ⟨heq, -, hfits⟩ := Out.require_eq hok
  have hfits : o.offset + 2 < cap := by simpa using hfits
  rw [heq, CRLF_length]
  omega

theorem Out.Fits.headers (h : o.Fits s) {headers : List ResponseHeader}
    (hroom : s.length + (headers.flatMap headerText).length < cap) :
    (headers.foldl (fun o header => responseHeaderWrite cap header o) o).Fits
      (s ++ headers.flatMap headerText) := by
  induction headers generalizing o s with
  | nil => simpa using h
  | cons header headers ih =>
    rw [List.flatMap_cons, List.length_append] at hroom
    have hwritten := h.snprintf (show s.length + (headerText header).length + 1 ≤ cap by omega)
    rw [List.foldl_cons, List.flatMap_cons, ← List.append_assoc]
    apply ih hwritten
    rw [List.length_append]
    omega

theorem Out.Fits.body (h : o.Fits s) (resp : HttpResponse)
    (hroom : (s ++ framingText resp ++ CRLF ++ bodyText resp).length < cap) :
    (responseBodyWrite cap resp o).failed = false := by
  simp only [List.length_append, CRLF_length] at hroom
  unfold framingText bodyText at hroom
  unfold responseBodyWrite
  cases hbody : resp.body with
  | none =>
    rw [hbody] at hroom
    simp only [List.length_nil] at hroom
    exact (h.blankLine (by omega)).ok
  | stream stream =>
    rw [hbody] at hroom
    simp only [List.length_nil] at hroom
    have hframed := h.memcpy (show s.length + transferEncodingChunked.length ≤ cap by omega)
    refine (hframed.blankLine ?_).ok
    rw [List.length_append]
    omega
  | buffer body size =>
    rw [hbody] at hroom
    dsimp only at hroom ⊢
    have hframed : (if !sawContentLength resp.headers && decide (0 < size) then
        o.snprintf cap 1 (contentLengthLine size) else o).Fits
        (s ++ if !sawContentLength resp.headers && decide (0 < size) then
          contentLengthLine size else []) := by
      split
      · next hadds =>
        rw [if_pos hadds] at hroom
        exact h.snprintf (by omega)
      · rwa [List.append_nil]
    generalize (if !sawContentLength resp.headers && decide (0 < size) then
      o.snprintf cap 1 (contentLengthLine size) else o) = framed at hframed ⊢
    generalize (if !sawContentLength resp.headers && decide (0 < size) then
      contentLengthLine size else []) = framing at hframed hroom
    have hline : (s ++ framing).length + 2 < cap := by
      rw [List.length_append]
      omega
    have hblank := hframed.blankLine hline
    cases body with
    | none => exact hblank.ok
    | some bytes =>
      dsimp only at hroom ⊢
      split
      · next hsends =>
        rw [if_pos hsends] at hroom
        refine (hblank.memcpy ?_).ok
        simp only [List.length_append, CRLF_length]
        omega
      · exact hblank.ok

variable {m : Machine σ}

/-- A year that `tm_year` can hold belongs to a time of 64 bits. -/
theorem YearFits.timeReading (h : YearFits now) (hnow : now ≠ -1) : TimeReading now := by
  obtain ⟨hlow, hhigh⟩ := h
  refine ⟨hnow, ?_, ?_⟩
  · simp only [gmtime] at hlow
    split at hlow <;> omega
  · simp only [gmtime] at hhigh
    split at hhigh <;> omega

/-- The clock does not fail, and shows years that `tm_year` can hold. -/
def Io.Dated (io : Io) : Prop := ∀ reading ∈ io.clock, reading ≠ -1 ∧ YearFits reading

theorem Io.Dated.timely {io : Io} (h : io.Dated) : io.Timely := fun reading hmem =>
  (h reading hmem).2.timeReading (h reading hmem).1

end HttpServer
