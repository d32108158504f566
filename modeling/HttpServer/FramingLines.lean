import HttpServer.ResponseFraming

/-!
# Which framing lines a response carries

The head of a serialized response is read back line by line. The serializer looks at
the handler's headers before it adds a `Content-Length` line, but not before it adds a
`Transfer-Encoding` line.
-/

namespace HttpServer

variable {u v line : Bytes} {lines : List Bytes} {resp : HttpResponse} {keepAlive : Bool} {now : ℤ}

/-! ## Lines of a text -/

def addFront (c : Byte) : List Bytes → List Bytes
  | [] => []
  | line :: lines => (c :: line) :: lines

/-- The lines of a text that a CRLF ends, without it. -/
def textLines : Bytes → List Bytes
  | [] => []
  | [_] => []
  | c :: d :: s =>
    if c = CR ∧ d = LF then [] :: textLines s else addFront c (textLines (d :: s))

theorem addFront_append {c : Byte} {lines' : List Bytes} (h : lines ≠ []) :
    addFront c (lines ++ lines') = addFront c lines ++ lines' := by
  cases lines with
  | nil => exact absurd rfl h
  | cons line lines => rfl

theorem crlf_suffix_of_cons {c d : Byte} (h : CRLF <:+ c :: d :: u) (hgo : ¬ (c = CR ∧ d = LF)) :
    CRLF <:+ d :: u := by
  apply (List.suffix_cons_iff.mp h).resolve_left
  intro heq
  exact hgo ⟨(List.cons.inj heq).1.symm, (List.cons.inj (List.cons.inj heq).2).1.symm⟩

theorem textLines_ne_nil (h : CRLF <:+ u) : textLines u ≠ [] := by
  induction u using textLines.induct with
  | case1 => exact absurd h.length_le (by decide)
  | case2 c => exact absurd h.length_le (by simp [CRLF_length])
  | case3 c d s hend ih =>
    rw [textLines, if_pos hend]
    exact List.cons_ne_nil _ _
  | case4 c d s hgo ih =>
    have hrest := crlf_suffix_of_cons h hgo
    rw [textLines, if_neg hgo]
    obtain ⟨line, lines, hlines⟩ := List.exists_cons_of_ne_nil (ih hrest)
    rw [hlines]
    exact List.cons_ne_nil _ _

/-- A text that ends a line is read by itself. -/
theorem textLines_append (h : CRLF <:+ u) (v : Bytes) :
    textLines (u ++ v) = textLines u ++ textLines v := by
  induction u using textLines.induct with
  | case1 => exact absurd h.length_le (by decide)
  | case2 c => exact absurd h.length_le (by simp [CRLF_length])
  | case3 c d s hend ih =>
    rw [List.cons_append, List.cons_append, textLines, if_pos hend, textLines, if_pos hend,
      List.cons_append]
    cases s with
    | nil => rfl
    | cons e s =>
      have hrest : CRLF <:+ e :: s := by
        obtain ⟨rfl, rfl⟩ := hend
        rcases List.suffix_cons_iff.mp h with heq | h
        · exact absurd (congrArg List.length heq) (by simp [CRLF_length])
        · rcases List.suffix_cons_iff.mp h with heq | h
          · exact absurd (List.cons.inj heq).1 (by decide)
          · exact h
      rw [ih hrest]
  | case4 c d s hgo ih =>
    have hrest := crlf_suffix_of_cons h hgo
    rw [List.cons_append, List.cons_append, textLines, if_neg hgo, textLines, if_neg hgo,
      ← List.cons_append, ih hrest, addFront_append (textLines_ne_nil hrest)]

theorem textLines_line (h : ¬ CRLF <:+: line) : textLines (line ++ CRLF) = [line] := by
  induction line with
  | nil => rfl
  | cons c line ih =>
    have hrest : ¬ CRLF <:+: line := fun hin => h (hin.trans (List.suffix_cons c line).isInfix)
    cases line with
    | nil =>
      have hgo : ¬ (c = CR ∧ CR = LF) := fun hend => absurd hend.2 (by decide)
      change textLines [c, CR, LF] = [[c]]
      rw [textLines, if_neg hgo]
      rfl
    | cons d line =>
      have hgo : ¬ (c = CR ∧ d = LF) := by
        rintro ⟨rfl, rfl⟩
        exact h (List.prefix_append CRLF line).isInfix
      rw [List.cons_append, List.cons_append, textLines, if_neg hgo, ← List.cons_append,
        ih hrest]
      rfl

/-- A text that does not start with a CRLF has a first line that is not empty. -/
theorem textLines_cons {c : Byte} (hc : c ≠ CR) (h : CRLF <:+ u) :
    ∃ line lines, textLines (c :: u) = (c :: line) :: lines := by
  obtain ⟨line, lines, hlines⟩ := List.exists_cons_of_ne_nil (textLines_ne_nil h)
  cases u with
  | nil => exact absurd h.length_le (by decide)
  | cons d u =>
    refine ⟨line, lines, ?_⟩
    rw [textLines, if_neg fun hend => hc hend.1, hlines]
    rfl

/-! ## The lines of a head -/

/-- The header lines of a response: those behind the status line, up to the empty one. -/
def headLines (out : Bytes) : List Bytes := ((textLines out).takeWhile (· ≠ [])).drop 1

/-- The lines that come from the handler: those of its headers, and any that its reason phrase
goes on with. -/
def givenLines (resp : HttpResponse) : List Bytes :=
  (textLines (startLine resp)).drop 1 ++ textLines (resp.headers.flatMap headerText)

/-- At most one `Content-Length` line, and not both framings. -/
structure ExclusiveFraming (lines : List Bytes) : Prop where
  one_length : (fieldValues lines (ascii "content-length")).length ≤ 1
  not_both : fieldValues lines (ascii "content-length") = [] ∨
    fieldValues lines (ascii "transfer-encoding") = []

/-- The serializer adds a framing line to a stream, whatever its headers are, and to a body in
memory whose headers announce no length. -/
def addsFraming (resp : HttpResponse) : Bool :=
  match resp.body with
  | .buffer _ size => !sawContentLength resp.headers && 0 < size
  | .none => false
  | .stream _ => true

def framingLines (resp : HttpResponse) : List Bytes :=
  match resp.body with
  | .buffer _ size => if addsFraming resp then [lengthField size] else []
  | .none => []
  | .stream _ => [ascii "Transfer-Encoding: chunked"]

theorem cr_not_mem_dateField (now : ℤ) : CR ∉ dateField now := by
  rw [dateField, List.mem_append]
  rintro (h | h)
  · exact absurd h (by decide)
  · exact cr_not_mem_httpDateFormat now h

theorem cr_not_mem_lengthField (size : ℕ) : CR ∉ lengthField size := by
  rw [lengthField, List.mem_append]
  rintro (h | h)
  · exact absurd h (by decide)
  · exact (mem_showNat h).1 rfl

theorem textLines_framingText (resp : HttpResponse) :
    textLines (framingText resp) = framingLines resp := by
  unfold framingText framingLines addsFraming
  cases resp.body with
  | none => rfl
  | stream stream =>
    exact textLines_line (one_line_of_cr_not_mem (by decide))
  | buffer body size =>
    dsimp only
    split
    · exact textLines_line (one_line_of_cr_not_mem (cr_not_mem_lengthField size))
    · rfl

theorem crlf_suffix_flatMap (headers : List ResponseHeader) :
    headers = [] ∨ CRLF <:+ headers.flatMap headerText := by
  induction headers with
  | nil => exact .inl rfl
  | cons header headers ih =>
    refine .inr ?_
    rw [List.flatMap_cons]
    rcases ih with rfl | ih
    · rw [List.flatMap_nil, List.append_nil]
      exact List.suffix_append _ _
    · exact ih.trans (List.suffix_append _ _)

theorem textLines_headers (headers : List ResponseHeader) (v : Bytes) :
    textLines (headers.flatMap headerText ++ v) =
      textLines (headers.flatMap headerText) ++ textLines v := by
  rcases crlf_suffix_flatMap headers with rfl | h
  · rfl
  · exact textLines_append h v

theorem textLines_framing (resp : HttpResponse) (v : Bytes) :
    textLines (framingText resp ++ v) = framingLines resp ++ textLines v := by
  rw [← textLines_framingText]
  unfold framingText
  cases resp.body with
  | none => rfl
  | stream stream => exact textLines_append (List.suffix_append _ _) v
  | buffer body size =>
    dsimp only
    split
    · exact textLines_append (List.suffix_append _ _) v
    · rfl

theorem textLines_field (h : CR ∉ line) (v : Bytes) :
    textLines (line ++ CRLF ++ v) = line :: textLines v := by
  rw [textLines_append (List.suffix_append _ _), textLines_line (one_line_of_cr_not_mem h)]
  rfl

/-- The head is read as the handler's lines with the serializer's own between them. -/
theorem headLines_responseText (resp : HttpResponse) (keepAlive : Bool) (now : ℤ) :
    headLines (responseText resp keepAlive now) =
      ((textLines (startLine resp)).drop 1 ++ dateField now ::
        (textLines (resp.headers.flatMap headerText) ++ connectionField keepAlive ::
          (framingLines resp ++ [] :: textLines (bodyText resp)))).takeWhile (· ≠ []) := by
  have hstart : CRLF <:+ startLine resp := List.suffix_append _ _
  have hconnection : CR ∉ connectionField keepAlive := by cases keepAlive <;> decide
  obtain ⟨c, rest, hc, hrest, hsplit⟩ : ∃ c rest, c ≠ CR ∧ CRLF <:+ rest ∧
      startLine resp = c :: rest := ⟨72, _, by decide, List.suffix_append _ _, rfl⟩
  obtain ⟨first, more, hfirst⟩ := textLines_cons hc hrest
  have hlines : textLines (responseText resp keepAlive now) =
      textLines (startLine resp) ++ dateField now ::
        (textLines (resp.headers.flatMap headerText) ++ connectionField keepAlive ::
          (framingLines resp ++ [] :: textLines (bodyText resp))) := by
    have hblank : textLines (CRLF ++ bodyText resp) = [] :: textLines (bodyText resp) :=
      textLines_field (List.not_mem_nil) _
    rw [← hblank, ← textLines_framing, ← textLines_field hconnection, ← textLines_headers,
      ← textLines_field (cr_not_mem_dateField now), ← textLines_append hstart]
    simp only [responseText, responseHeadText, dateLine, connectionLine, dateField,
      connectionField, List.append_assoc]
  rw [headLines, hlines, hsplit, hfirst]
  rfl

/-! ## Exclusion -/

theorem ExclusiveFraming.of_prefix {lines' : List Bytes} (h : ExclusiveFraming lines')
    (hpre : lines <+: lines') : ExclusiveFraming lines := by
  have hvalues : ∀ name, (fieldValues lines name).Sublist (fieldValues lines' name) := by
    intro name
    exact (hpre.sublist.filter _).map _
  constructor
  · exact (hvalues _).length_le.trans h.one_length
  · apply h.not_both.imp
    · intro hnil
      exact List.sublist_nil.mp (hnil ▸ hvalues _)
    · intro hnil
      exact List.sublist_nil.mp (hnil ▸ hvalues _)

/-- The date says nothing about the framing. -/
theorem fieldValues_dateField {name : Bytes} (hname : asciiIeq (ascii "Date") name = false) :
    fieldValues [dateField now] name = [] := by
  apply fieldValues_eq_nil
  intro line hmem
  rw [List.mem_singleton.mp hmem, fieldName_dateField, hname]

theorem fieldValues_connectionField {name : Bytes}
    (hname : asciiIeq (ascii "Connection") name = false) :
    fieldValues [connectionField keepAlive] name = [] := by
  apply fieldValues_eq_nil
  intro line hmem
  rw [List.mem_singleton.mp hmem, fieldName_connectionField, hname]

/-- The values of a framing header: the handler's, and the serializer's own. -/
theorem fieldValues_head {front headers framing : List Bytes} {name : Bytes}
    (hdate : asciiIeq (ascii "Date") name = false)
    (hconnection : asciiIeq (ascii "Connection") name = false) :
    fieldValues (front ++ dateField now :: (headers ++ connectionField keepAlive :: framing)) name =
      fieldValues (front ++ headers) name ++ fieldValues framing name := by
  have hsplit : front ++ dateField now :: (headers ++ connectionField keepAlive :: framing) =
      front ++ ([dateField now] ++ (headers ++ ([connectionField keepAlive] ++ framing))) := rfl
  rw [hsplit]
  simp only [fieldValues_append, fieldValues_dateField hdate,
    fieldValues_connectionField hconnection, List.nil_append, List.append_assoc]

theorem takeWhile_stops {l m : List Bytes} (h : [] ∈ l) :
    (l ++ m).takeWhile (· ≠ []) <+: l := by
  obtain ⟨front, back, rfl, -⟩ := List.eq_append_cons_of_mem h
  have hstop : (front ++ [] :: (back ++ m)).takeWhile (· ≠ []) <+: front := by
    rw [List.takeWhile_append]
    split
    · simp
    · exact List.takeWhile_prefix _
  rw [List.append_assoc, List.cons_append]
  exact hstop.trans (List.prefix_append _ _)

theorem framingLines_cases (resp : HttpResponse) :
    addsFraming resp = false ∧ framingLines resp = [] ∨
      addsFraming resp = true ∧ ((∃ size, framingLines resp = [lengthField size]) ∨
        framingLines resp = [ascii "Transfer-Encoding: chunked"]) := by
  unfold framingLines addsFraming
  cases resp.body with
  | none => exact .inl ⟨rfl, rfl⟩
  | stream stream => exact .inr ⟨rfl, .inr rfl⟩
  | buffer body size =>
    dsimp only
    split
    · next hadds => exact .inr ⟨hadds, .inl ⟨size, rfl⟩⟩
    · next hadds => exact .inl ⟨by simpa using hadds, rfl⟩

theorem framingLines_ne_nil (resp : HttpResponse) : ∀ line ∈ framingLines resp, line ≠ [] := by
  rcases framingLines_cases resp with ⟨-, h⟩ | ⟨-, ⟨size, h⟩ | h⟩
  · simp [h]
  · simp [h, lengthField, ascii]
  · simp [h, ascii]

theorem fieldValues_length_lengthField (size : ℕ) :
    fieldValues [lengthField size] (ascii "content-length") = [showNat size] := by
  have hname : asciiIeq (fieldName (lengthField size)) (ascii "content-length") = true := by
    rw [fieldName_lengthField]
    decide
  simp only [fieldValues, List.filter_cons, hname, if_true, List.filter_nil, List.map_cons,
    List.map_nil, fieldValue_lengthField]

theorem fieldValues_coding_lengthField (size : ℕ) :
    fieldValues [lengthField size] (ascii "transfer-encoding") = [] := by
  apply fieldValues_eq_nil
  intro line hmem
  rw [List.mem_singleton.mp hmem, fieldName_lengthField]
  decide

/-- With one line more the framings are apart when no length was given. -/
theorem exclusive_framingLines_iff {headers : List Bytes} (resp : HttpResponse)
    (keepAlive : Bool) (now : ℤ) {front : List Bytes}
    (hlength : (fieldValues (front ++ headers) (ascii "content-length")).length ≤ 1)
    (hcoding : fieldValues (front ++ headers) (ascii "transfer-encoding") = []) :
    ExclusiveFraming (front ++ dateField now ::
        (headers ++ connectionField keepAlive :: framingLines resp)) ↔
      addsFraming resp = false ∨
        fieldValues (front ++ headers) (ascii "content-length") = [] := by
  have hlengths : ∀ framing, fieldValues (front ++ dateField now ::
      (headers ++ connectionField keepAlive :: framing)) (ascii "content-length") =
        fieldValues (front ++ headers) (ascii "content-length") ++
          fieldValues framing (ascii "content-length") :=
    fun framing => fieldValues_head (by decide) (by decide)
  have hcodings : ∀ framing, fieldValues (front ++ dateField now ::
      (headers ++ connectionField keepAlive :: framing)) (ascii "transfer-encoding") =
        fieldValues framing (ascii "transfer-encoding") := by
    intro framing
    rw [fieldValues_head (by decide) (by decide), hcoding, List.nil_append]
  rcases framingLines_cases resp with ⟨hadds, hlines⟩ | ⟨hadds, ⟨size, hlines⟩ | hlines⟩
  · refine iff_of_true ⟨?_, .inr ?_⟩ (.inl hadds)
    · rw [hlengths, hlines]
      simpa [fieldValues] using hlength
    · rw [hcodings, hlines]
      rfl
  · rw [hadds, hlines]
    constructor
    · rintro ⟨hone, -⟩
      rw [hlengths, fieldValues_length_lengthField, List.length_append, List.length_singleton]
        at hone
      exact .inr (List.length_eq_zero_iff.mp (by omega))
    · rintro (h | hnone)
      · cases h
      · refine ⟨?_, .inr ?_⟩
        · rw [hlengths, hnone, fieldValues_length_lengthField]
          rfl
        · rw [hcodings, fieldValues_coding_lengthField]
  · have hcoded : fieldValues [ascii "Transfer-Encoding: chunked"]
        (ascii "transfer-encoding") ≠ [] := by decide
    have hno : fieldValues [ascii "Transfer-Encoding: chunked"] (ascii "content-length") = [] := by
      decide
    rw [hadds, hlines]
    constructor
    · rintro ⟨-, hnone | hnone⟩
      · rw [hlengths, List.append_eq_nil_iff] at hnone
        exact .inr hnone.1
      · rw [hcodings] at hnone
        exact absurd hnone hcoded
    · rintro (h | hnone)
      · cases h
      · refine ⟨?_, .inl ?_⟩
        · rw [hlengths, hnone, hno]
          exact Nat.zero_le _
        · rw [hlengths, hnone, hno]
          rfl

/-- The head of a response keeps the framings apart exactly when the serializer adds no line to a
length that the handler gave, unless an empty line among the handler's ends the head before. -/
theorem headLines_exclusive_iff (resp : HttpResponse) (keepAlive : Bool) (now : ℤ)
    (hlength : (fieldValues (givenLines resp) (ascii "content-length")).length ≤ 1)
    (hcoding : fieldValues (givenLines resp) (ascii "transfer-encoding") = []) :
    ExclusiveFraming (headLines (responseText resp keepAlive now)) ↔
      [] ∈ givenLines resp ∨ addsFraming resp = false ∨
        fieldValues (givenLines resp) (ascii "content-length") = [] := by
  rw [headLines_responseText]
  unfold givenLines at hlength hcoding ⊢
  generalize (textLines (startLine resp)).drop 1 = front at hlength hcoding ⊢
  generalize textLines (resp.headers.flatMap headerText) = headers at hlength hcoding ⊢
  by_cases hempty : [] ∈ front ++ headers
  · refine iff_of_true ?_ (.inl hempty)
    have hmem : [] ∈ front ++ dateField now :: headers := by
      rcases List.mem_append.mp hempty with h | h
      · exact List.mem_append_left _ h
      · exact List.mem_append_right _ (List.mem_cons_of_mem _ h)
    -- what is read of the head ends before the lines that the serializer adds
    have hwhole : ExclusiveFraming
        (front ++ dateField now :: (headers ++ connectionField keepAlive :: [])) :=
      (exclusive_framingLines_iff (responseNone 200 [] []) keepAlive now hlength hcoding).mpr
        (.inl rfl)
    have hpart : ExclusiveFraming (front ++ dateField now :: headers) := by
      refine hwhole.of_prefix ?_
      rw [List.prefix_append_right_inj, List.cons_prefix_cons]
      exact ⟨rfl, List.prefix_append _ _⟩
    have hsplit : ∀ rest : List Bytes, front ++ dateField now :: (headers ++ rest) =
        (front ++ dateField now :: headers) ++ rest := by
      intro rest
      rw [List.append_assoc, List.cons_append]
    rw [hsplit]
    exact hpart.of_prefix (takeWhile_stops hmem)
  · have hall : ∀ line ∈ front ++ dateField now ::
        (headers ++ connectionField keepAlive :: framingLines resp),
        decide (line ≠ []) = true := by
      intro line hline
      rw [decide_eq_true_eq]
      rintro rfl
      simp only [List.mem_append, List.mem_cons, not_or] at hline hempty
      rcases hline with h | h | h | h | h
      · exact hempty.1 h
      · exact absurd h.symm (by simp [dateField, ascii])
      · exact hempty.2 h
      · exact absurd h.symm (by cases keepAlive <;> decide)
      · exact framingLines_ne_nil resp _ h rfl
    have hsplit : ∀ rest : List Bytes, front ++ dateField now ::
        (headers ++ connectionField keepAlive :: (framingLines resp ++ rest)) =
        (front ++ dateField now :: (headers ++ connectionField keepAlive :: framingLines resp)) ++
          rest := by
      intro rest
      simp only [List.append_assoc, List.cons_append]
    have hstop : ([] :: textLines (bodyText resp)).takeWhile (· ≠ []) = [] := rfl
    rw [hsplit, List.takeWhile_append_of_pos hall, hstop, List.append_nil,
      exclusive_framingLines_iff resp keepAlive now hlength hcoding]
    simp only [hempty, false_or]

/-- A head whose strings are each on one line: the handler's lines are its headers. -/
theorem givenLines_plain (hreason : ¬ CRLF <:+: resp.reason)
    (hheaders : ∀ header ∈ resp.headers, ¬ CRLF <:+: headerField header) :
    givenLines resp = resp.headers.map headerField := by
  have hstart : textLines (startLine resp) = [startField resp] :=
    textLines_line (startField_one_line hreason)
  have hlines : ∀ headers : List ResponseHeader,
      (∀ header ∈ headers, ¬ CRLF <:+: headerField header) →
      textLines (headers.flatMap headerText) = headers.map headerField := by
    intro headers hone
    induction headers with
    | nil => rfl
    | cons header headers ih =>
      obtain ⟨hheader, hrest⟩ := List.forall_mem_cons.mp hone
      have hline : textLines (headerText header) = [headerField header] := textLines_line hheader
      have hends : CRLF <:+ headerText header := List.suffix_append _ _
      rw [List.flatMap_cons, textLines_append hends, hline, ih hrest]
      rfl
  rw [givenLines, hstart, hlines resp.headers hheaders]
  rfl

theorem sawContentLength_eq_false_iff {headers : List ResponseHeader}
    (hkeys : ∀ header ∈ headers, 58 ∉ header.key) : sawContentLength headers = false ↔
      fieldValues (headers.map headerField) (ascii "content-length") = [] := by
  rw [sawContentLength, List.any_eq_false, fieldValues, List.map_eq_nil_iff,
    List.filter_eq_nil_iff, List.forall_mem_map]
  refine forall₂_congr fun header hmem => ?_
  rw [fieldName_headerField, fieldName_eq_self (hkeys header hmem)]

/-- Every response that is serialized. -/
theorem exclusiveFraming_iff (resp : HttpResponse) (cap : ℕ) (keepAlive : Bool) (now : ℤ)
    (out : Bytes)
    (hlength : (fieldValues (givenLines resp) (ascii "content-length")).length ≤ 1)
    (hcoding : fieldValues (givenLines resp) (ascii "transfer-encoding") = [])
    (hout : (responseSerialize resp cap keepAlive now).result = some out) :
    ExclusiveFraming (headLines out) ↔
      [] ∈ givenLines resp ∨ addsFraming resp = false ∨
        fieldValues (givenLines resp) (ascii "content-length") = [] := by
  obtain rfl := (responseSerialize_holds resp cap keepAlive now).result hout
  exact headLines_exclusive_iff resp keepAlive now hlength hcoding

theorem exclusiveFraming_iff_hello :
    ExclusiveFraming (headLines (responseText helloResponse true 0)) ↔
      [] ∈ givenLines helloResponse ∨ addsFraming helloResponse = false ∨
        fieldValues (givenLines helloResponse) (ascii "content-length") = [] :=
  exclusiveFraming_iff helloResponse HTTP_RESPONSE_BUFFER_SIZE true 0 _ (by decide +kernel)
    (by decide +kernel) (by decide +kernel)

/-- For headers of one line each, streams with a length of the handler's are what goes wrong. -/
theorem headLines_exclusive_plain (keepAlive : Bool) (now : ℤ)
    (hreason : ¬ CRLF <:+: resp.reason)
    (hheaders : ∀ header ∈ resp.headers, ¬ CRLF <:+: headerField header)
    (hkeys : ∀ header ∈ resp.headers, 58 ∉ header.key)
    (hlength : (fieldValues (resp.headers.map headerField) (ascii "content-length")).length ≤ 1)
    (hcoding : fieldValues (resp.headers.map headerField) (ascii "transfer-encoding") = []) :
    ExclusiveFraming (headLines (responseText resp keepAlive now)) ↔
      (∀ stream, resp.body ≠ .stream stream) ∨ sawContentLength resp.headers = false := by
  have hplain := givenLines_plain hreason hheaders
  have hne : [] ∉ givenLines resp := by
    rw [hplain]
    intro hmem
    obtain ⟨header, -, hnil⟩ := List.mem_map.mp hmem
    exact absurd hnil (by simp [headerField, ascii])
  rw [headLines_exclusive_iff resp keepAlive now (hplain ▸ hlength) (hplain ▸ hcoding), hplain,
    ← sawContentLength_eq_false_iff hkeys, ← hplain]
  simp only [hne, false_or]
  unfold addsFraming
  cases hbody : resp.body with
  | none => simp
  | stream stream => simp
  | buffer body size => cases sawContentLength resp.headers <;> simp

def streamedLength : HttpResponse :=
  responseStream 200 (ascii "OK") {} [⟨ascii "Content-Length", ascii "5"⟩]

/-- A stream for which the handler gives a length carries both framings. -/
theorem streamedLength_both :
    (fieldValues (givenLines streamedLength) (ascii "content-length")).length ≤ 1 ∧
      fieldValues (givenLines streamedLength) (ascii "transfer-encoding") = [] ∧
      (responseSerialize streamedLength HTTP_RESPONSE_BUFFER_SIZE true 0).result =
        some (responseText streamedLength true 0) ∧
      ¬ ExclusiveFraming (headLines (responseText streamedLength true 0)) := by
  refine ⟨by decide +kernel, by decide +kernel, by decide +kernel, ?_⟩
  rintro ⟨-, hnone | hnone⟩
  · exact absurd hnone (by decide +kernel)
  · exact absurd hnone (by decide +kernel)

end HttpServer
