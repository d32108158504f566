import HttpServer.Response

/-!
# The text of a serialized response

A serializer that does not fail has written the start line, the date, the headers,
the `Connection` line, the framing line and the body, in this order and uncut.
-/

namespace HttpServer

/-- Unless it has failed, the writer has advanced exactly over `s`. -/
def Out.Holds (s : Bytes) (o : Out) : Prop :=
  o.failed = false → o.offset = s.length ∧ s <+: o.mem

variable {s : Bytes} {o : Out} {cap : ℕ}

theorem Out.Holds.result (h : o.Holds s) {t : Bytes} (ht : o.result = some t) : t = s := by
  unfold Out.result at ht
  cases hfailed : o.failed with
  | true => simp [hfailed] at ht
  | false =>
    obtain ⟨hoffset, hmem⟩ := h hfailed
    simp only [hfailed, Bool.false_eq_true, if_false, Option.some.injEq] at ht
    rw [← ht, hoffset]
    exact (List.prefix_iff_eq_take.mp hmem).symm

theorem Out.require_failed (b : Out → Bool) (o : Out) :
    (o.require b).failed = (o.failed || !b o) := by
  unfold Out.require
  cases hfailed : o.failed <;> cases hb : b o <;> simp [hfailed]

theorem Out.require_eq {b : Out → Bool} (h : (o.require b).failed = false) :
    o.require b = o ∧ o.failed = false ∧ b o = true := by
  rw [require_failed] at h
  have hb : o.failed = false ∧ b o = true := by simpa using h
  refine ⟨?_, hb⟩
  rw [require, hb.2, Bool.or_true, if_pos rfl]

theorem Out.Holds.require (h : o.Holds s) (b : Out → Bool) : (o.require b).Holds s := by
  intro hfailed
  obtain ⟨heq, hok, -⟩ := Out.require_eq hfailed
  rw [heq]
  exact h hok

theorem Out.put_failed (bs : Bytes) (n : ℕ) (o : Out) : (o.put bs n).failed = o.failed := by
  unfold Out.put
  cases hfailed : o.failed <;> simp [hfailed]

theorem Out.Holds.put (h : o.Holds s) (t rest : Bytes) :
    (o.put (t ++ rest) t.length).Holds (s ++ t) := by
  intro hfailed
  rw [put_failed] at hfailed
  obtain ⟨hoffset, hmem⟩ := h hfailed
  rw [Out.put, hfailed, if_neg Bool.false_ne_true]
  refine ⟨by rw [List.length_append, hoffset], ?_⟩
  dsimp only
  rw [hoffset, ← List.prefix_iff_eq_take.mp hmem, ← List.append_assoc]
  exact List.prefix_append _ _

theorem Out.Holds.snprintf (h : o.Holds s) {slack : ℕ} (hslack : 0 < slack) (t : Bytes) :
    (o.snprintf cap slack t).Holds (s ++ t) := by
  intro hfailed
  obtain ⟨heq, hok, hfits⟩ := Out.require_eq hfailed
  have hfits : t.length + slack ≤ cap - o.offset := by simpa using hfits
  have hall : t.take (cap - o.offset - 1) = t := List.take_of_length_le (by omega)
  rw [if_neg (by omega), hall] at hok
  rw [Out.snprintf, heq, if_neg (by omega), hall]
  exact h.put t [0] hok

theorem Out.Holds.memcpy (h : o.Holds s) (t : Bytes) : (o.memcpy cap t).Holds (s ++ t) := by
  have hput := (h.require fun o => o.offset + t.length ≤ cap).put t []
  rwa [List.append_nil] at hput

theorem Out.Holds.strftime (h : o.Holds s) (t : Bytes) : (o.strftime cap t).Holds (s ++ t) :=
  (h.require _).put t [0]

theorem Out.Holds.headers (h : o.Holds s) (headers : List ResponseHeader) :
    (headers.foldl (fun o header => responseHeaderWrite cap header o) o).Holds
      (s ++ headers.flatMap headerText) := by
  induction headers generalizing o s with
  | nil => simpa using h
  | cons header headers ih =>
    rw [List.foldl_cons, List.flatMap_cons, ← List.append_assoc]
    exact ih (h.snprintf Nat.one_pos (headerText header))

/-- The start line may be cut when it fills the buffer, and then the date does not fit. -/
theorem Out.holds_startLine_dateLine (start date : Bytes) (b : Out → Bool) :
    (((({} : Out).snprintf cap 0 start).require b).strftime cap date).Holds (start ++ date) := by
  by_cases hcut : start.length < cap
  · have hstart : (({} : Out).snprintf cap 0 start).Holds start := by
      intro hfailed
      have hall : start.take (cap - 0 - 1) = start := List.take_of_length_le (by omega)
      obtain ⟨heq, hok, -⟩ := Out.require_eq hfailed
      have hempty : ({} : Out).Holds [] := fun _ => ⟨rfl, List.nil_prefix⟩
      have hroom : ¬ cap - ({} : Out).offset = 0 := by dsimp only; omega
      rw [if_neg hroom, hall] at hok
      rw [Out.snprintf, heq, if_neg hroom, hall]
      exact hempty.put start [0] hok
    exact (hstart.require b).strftime date
  · intro hfailed
    rw [Out.strftime, Out.put_failed] at hfailed
    obtain ⟨-, hok, hroom⟩ := Out.require_eq hfailed
    obtain ⟨heq, hok, -⟩ := Out.require_eq hok
    rw [heq] at hroom
    obtain ⟨heq, -, -⟩ := Out.require_eq hok
    rw [Out.snprintf, heq] at hroom
    simp only [Out.put, Bool.false_eq_true, if_false, decide_eq_true_eq] at hroom
    omega

/-! ## The whole text -/

/-- Everything up to and including the `Connection` line. -/
def responseHeadText (resp : HttpResponse) (keepAlive : Bool) (now : ℤ) : Bytes :=
  startLine resp ++ dateLine now ++ resp.headers.flatMap headerText ++ connectionLine keepAlive

def framingText (resp : HttpResponse) : Bytes :=
  match resp.body with
  | .buffer _ size =>
    if !sawContentLength resp.headers && 0 < size then contentLengthLine size else []
  | .none => []
  | .stream _ => transferEncodingChunked

def bodyText (resp : HttpResponse) : Bytes :=
  match resp.body with
  | .buffer (some bytes) size => if !resp.headOnly && 0 < size then bytes.take size else []
  | _ => []

def responseText (resp : HttpResponse) (keepAlive : Bool) (now : ℤ) : Bytes :=
  responseHeadText resp keepAlive now ++ framingText resp ++ CRLF ++ bodyText resp

theorem Out.Holds.blankLine (h : o.Holds s) : (responseBlankLineWrite cap o).Holds (s ++ CRLF) := by
  have hput := (h.require fun o => o.offset + 2 < cap).put CRLF []
  rwa [List.append_nil] at hput

theorem Out.Holds.body (h : o.Holds s) (resp : HttpResponse) :
    (responseBodyWrite cap resp o).Holds (s ++ framingText resp ++ CRLF ++ bodyText resp) := by
  unfold responseBodyWrite framingText bodyText
  cases resp.body with
  | none =>
    simp only [List.append_nil]
    exact h.blankLine
  | stream stream =>
    simp only [List.append_nil]
    exact (h.memcpy transferEncodingChunked).blankLine
  | buffer body size =>
    dsimp only
    have hframed : (if !sawContentLength resp.headers && decide (0 < size) then
        o.snprintf cap 1 (contentLengthLine size) else o).Holds
        (s ++ if !sawContentLength resp.headers && decide (0 < size) then
          contentLengthLine size else []) := by
      split
      · exact h.snprintf Nat.one_pos _
      · rwa [List.append_nil]
    generalize (if !sawContentLength resp.headers && decide (0 < size) then
      o.snprintf cap 1 (contentLengthLine size) else o) = framed at hframed ⊢
    generalize (if !sawContentLength resp.headers && decide (0 < size) then
      contentLengthLine size else []) = framing at hframed ⊢
    cases body with
    | none =>
      rw [List.append_nil]
      exact hframed.blankLine
    | some bytes =>
      dsimp only
      split
      · exact hframed.blankLine.memcpy _
      · rw [List.append_nil]
        exact hframed.blankLine

theorem responseSerialize_holds (resp : HttpResponse) (cap : ℕ) (keepAlive : Bool) (now : ℤ) :
    (responseSerialize resp cap keepAlive now).Holds (responseText resp keepAlive now) :=
  (((Out.holds_startLine_dateLine (startLine resp) (dateLine now) _).headers
    resp.headers).memcpy (connectionLine keepAlive) |>.require _).body resp

end HttpServer
