import HttpServer.NumberParsing
import HttpServer.RequestGrammar
import HttpServer.Serializing

/-!
# Where a response ends

`receive` is the reader on the other side: it takes the status line and the header
lines off the stream and then reads a body, which is chunked, of the announced
length, or everything until the connection is closed. What `response_serialize`
writes for a body in memory tells such a reader where the body ends, unless the
body is empty: then no length is announced.
-/

namespace HttpServer

/-! ## The receiver -/

/-- The bytes before the first CRLF and those behind it. -/
def takeLine : Bytes → Option (Bytes × Bytes)
  | [] => none
  | c :: s =>
    if c = CR ∧ s.head? = some LF then some ([], s.tail)
    else (takeLine s).map fun (line, rest) => (c :: line, rest)

/-- The lines up to the empty one, and what is behind that. A line takes at least two bytes, so
`fuel` of the length is not used up. -/
def fieldLines : ℕ → Bytes → Option (List Bytes × Bytes)
  | 0, _ => none
  | fuel + 1, s =>
    match takeLine s with
    | none => none
    | some ([], rest) => some ([], rest)
    | some (line, rest) => (fieldLines fuel rest).map fun (lines, rest) => (line :: lines, rest)

def fieldName (line : Bytes) : Bytes := line.takeWhile (· != 58)

def fieldValue (line : Bytes) : Bytes := owsTrim ((line.dropWhile (· != 58)).drop 1)

def fieldValues (lines : List Bytes) (name : Bytes) : List Bytes :=
  (lines.filter fun line => asciiIeq (fieldName line) name).map fieldValue

/-- A body that is not chunked, by the values of its `Content-Length` lines. -/
def readPlain (lengths : List Bytes) (rest : Bytes) : Option (Bytes × Bytes) :=
  match lengths with
  | [] => some (rest, [])
  | val :: vals =>
    match numeral 10 0 val with
    | none => none
    | some n =>
      if val ≠ [] ∧ vals.all (· = val) ∧ n ≤ rest.length then some (rest.take n, rest.drop n)
      else none

/-- Read one response, of a status that has a body, off the bytes that a connection delivers until it
is closed: the body, and the bytes that are left to the next response. `dechunk` reads a chunked
body. -/
def receive (dechunk : Bytes → Option (Bytes × Bytes)) (s : Bytes) : Option (Bytes × Bytes) := do
  let (_, s) ← takeLine s
  let (lines, rest) ← fieldLines (s.length + 1) s
  if fieldValues lines (ascii "transfer-encoding") ≠ [] then dechunk rest
  else readPlain (fieldValues lines (ascii "content-length")) rest

variable {line rest : Bytes} {lines : List Bytes}

theorem takeLine_append (h : ¬ CRLF <:+: line) (rest : Bytes) :
    takeLine (line ++ CRLF ++ rest) = some (line, rest) := by
  induction line with
  | nil => rfl
  | cons c line ih =>
    have hline : ¬ CRLF <:+: line := fun hin => h (hin.trans (List.suffix_cons c line).isInfix)
    have hgo : ¬ (c = CR ∧ (line ++ CRLF ++ rest).head? = some LF) := by
      rintro ⟨rfl, hhead⟩
      cases line with
      | nil => simp [CRLF, CR, LF] at hhead
      | cons d line =>
        obtain rfl : d = LF := by simpa using hhead
        exact h (List.prefix_append CRLF line).isInfix
    rw [List.cons_append, List.cons_append, takeLine, if_neg hgo, ih hline]
    rfl

/-- A header line as it is read back. -/
structure FieldLine (line : Bytes) : Prop where
  ne_nil : line ≠ []
  one_line : ¬ CRLF <:+: line

theorem fieldLines_flatMap (hlines : ∀ line ∈ lines, FieldLine line) (rest : Bytes) {fuel : ℕ}
    (hfuel : lines.length < fuel) :
    fieldLines fuel (lines.flatMap (· ++ CRLF) ++ (CRLF ++ rest)) = some (lines, rest) := by
  induction lines generalizing fuel with
  | nil =>
    obtain ⟨fuel, rfl⟩ := Nat.exists_eq_succ_of_ne_zero (by simpa using hfuel.ne')
    rfl
  | cons line lines ih =>
    obtain ⟨fuel, rfl⟩ := Nat.exists_eq_succ_of_ne_zero (Nat.ne_of_gt (Nat.zero_lt_of_lt hfuel))
    obtain ⟨hne, hone⟩ := hlines line (List.mem_cons_self ..)
    have hrest := ih (fun line hmem => hlines line (List.mem_cons_of_mem _ hmem))
      (Nat.lt_of_succ_lt_succ hfuel)
    rw [List.flatMap_cons, List.append_assoc, fieldLines, takeLine_append hone]
    cases line with
    | nil => exact absurd rfl hne
    | cons c line =>
      dsimp only
      rw [hrest]
      rfl

theorem length_le_flatMap_crlf (lines : List Bytes) :
    lines.length ≤ (lines.flatMap (· ++ CRLF)).length := by
  induction lines with
  | nil => exact Nat.zero_le _
  | cons line lines ih =>
    rw [List.flatMap_cons, List.length_cons, List.length_append, List.length_append, CRLF_length]
    omega

/-- What is received of a head made of lines, and anything behind it. -/
theorem receive_lines (dechunk : Bytes → Option (Bytes × Bytes)) {start : Bytes}
    (hstart : ¬ CRLF <:+: start) (hlines : ∀ line ∈ lines, FieldLine line)
    (hplain : fieldValues lines (ascii "transfer-encoding") = []) (rest : Bytes) :
    receive dechunk (start ++ CRLF ++ (lines.flatMap (· ++ CRLF) ++ (CRLF ++ rest))) =
      readPlain (fieldValues lines (ascii "content-length")) rest := by
  have hlen := length_le_flatMap_crlf lines
  have hread := fieldLines_flatMap hlines rest
    (show lines.length < (lines.flatMap (· ++ CRLF) ++ (CRLF ++ rest)).length + 1 by
      rw [List.length_append]
      omega)
  unfold receive
  rw [takeLine_append hstart]
  simp only [Option.bind_eq_bind, Option.bind_some, hread, hplain, ne_eq, not_true_eq_false,
    if_false]

/-! ## Text on one line -/

theorem digitValue_digitChar {d : ℕ} (h : d < 10) :
    digitValue (Nat.digitChar d).val.toUInt8 10 = some d := by
  revert d
  decide

theorem numeral_showNat (n : ℕ) : numeral 10 0 (showNat n) = some n := by
  induction n using Nat.strongRecOn with
  | ind n ih =>
    by_cases hlt : n < 10
    · rw [showNat, Nat.toDigits_of_lt_base hlt, List.map_singleton]
      simp only [numeral, digitValue_digitChar hlt, Nat.zero_mul, Nat.zero_add]
    · have hsplit : showNat n = showNat (n / 10) ++ [(Nat.digitChar (n % 10)).val.toUInt8] := by
        rw [showNat, Nat.toDigits_of_base_le (by decide) (by omega), List.map_append]
        rfl
      have hdigit := digitValue_digitChar (Nat.mod_lt n (show 0 < 10 by decide))
      rw [hsplit, numeral_append, ih (n / 10) (by omega), Option.bind_some]
      simp only [numeral, hdigit, Option.some.injEq]
      omega

theorem numeral_digits {base v n : ℕ} {s : Bytes} (h : numeral base v s = some n) :
    ∀ c ∈ s, digitValue c base ≠ none := by
  induction s generalizing v with
  | nil => simp
  | cons c s ih =>
    rw [numeral] at h
    cases hd : digitValue c base with
    | none => simp [hd] at h
    | some d =>
      rw [hd] at h
      simp only [List.forall_mem_cons]
      exact ⟨by simp [hd], ih h⟩

/-- No digit is `CR` or white space. -/
theorem mem_showNat {n : ℕ} {c : Byte} (hc : c ∈ showNat n) : c ≠ CR ∧ isOws c = false := by
  have hdigit := numeral_digits (numeral_showNat n) c hc
  constructor
  · rintro rfl
    exact hdigit rfl
  · refine Bool.eq_false_iff.mpr fun hows => hdigit ?_
    simp only [isOws, SP, HTAB, Bool.or_eq_true, beq_iff_eq] at hows
    rcases hows with rfl | rfl <;> rfl

theorem showNat_ne_nil (n : ℕ) : showNat n ≠ [] := by
  intro hnil
  have hnumeral := numeral_showNat n
  rw [hnil] at hnumeral
  obtain rfl : 0 = n := Option.some.inj hnumeral
  exact absurd hnil (by decide)

theorem cr_not_mem_showInt (n : ℤ) : CR ∉ showInt n := by
  unfold showInt
  split
  · rw [List.mem_cons]
    rintro (h | h)
    · exact absurd h (by decide)
    · exact (mem_showNat h).1 rfl
  · exact fun h => (mem_showNat h).1 rfl

theorem cr_not_mem_showTwo (n : ℤ) : CR ∉ showTwo n := by
  rw [showTwo, List.mem_append]
  rintro (h | h) <;> exact (mem_showNat h).1 rfl

theorem cr_not_mem_name (names : List Bytes) (hnames : ∀ name ∈ names, CR ∉ name) (i : ℕ) :
    CR ∉ (names.getD i []).take 3 := by
  intro h
  rw [List.getD_eq_getElem?_getD] at h
  cases hget : names[i]? with
  | none => simp [hget] at h
  | some name =>
    rw [hget] at h
    exact hnames name (List.mem_of_getElem? hget) (List.mem_of_mem_take h)

theorem cr_not_mem_httpDateFormat (t : ℤ) : CR ∉ httpDateFormat t := by
  unfold httpDateFormat strftimeHttp
  generalize gmtime t = tm
  have hweekday := cr_not_mem_name weekdayNames (by decide) tm.wday.toNat
  have hmonth := cr_not_mem_name monthNames (by decide) tm.mon.toNat
  simp only [List.mem_append, cr_not_mem_showInt, cr_not_mem_showTwo, hweekday, hmonth, or_false,
    false_or]
  decide

theorem one_line_of_cr_not_mem (h : CR ∉ line) : ¬ CRLF <:+: line :=
  fun hin => h (hin.subset (List.mem_cons_self ..))

theorem owsTrim_of_not_ows {s : Bytes} (h : ∀ c ∈ s, isOws c = false) : owsTrim s = s := by
  have hdrop : s.dropWhile isOws = s := by
    cases s with
    | nil => rfl
    | cons c s => rw [List.dropWhile_cons_of_neg (by simp [h c])]
  rw [owsTrim, hdrop, List.rdropWhile_eq_self_iff]
  intro hne
  rw [h _ (List.getLast_mem hne)]
  simp

/-- The name ends at the first colon. -/
theorem fieldName_append (key rest : Bytes) :
    fieldName (key ++ 58 :: rest) = fieldName key := by
  induction key with
  | nil => rfl
  | cons c key ih =>
    unfold fieldName at ih ⊢
    rw [List.cons_append, List.takeWhile_cons, List.takeWhile_cons, ih]

theorem toLower_eq_colon {c : Byte} (h : toLower c = 58) : c = 58 := by
  simp only [toLower, isUpper] at h
  grind

theorem colon_mem_of_asciiIeq {key name : Bytes} (h : asciiIeq key name = true)
    (hmem : 58 ∈ key) : 58 ∈ name := by
  induction key generalizing name with
  | nil => cases hmem
  | cons c key ih =>
    cases name with
    | nil => cases h
    | cons d name =>
      rw [asciiIeq, Bool.and_eq_true, beq_iff_eq] at h
      rcases List.mem_cons.mp hmem with rfl | hmem
      · rw [toLower_eq_colon h.1.symm]
        exact List.mem_cons_self ..
      · exact List.mem_cons_of_mem _ (ih h.2 hmem)

theorem fieldName_eq_self (h : 58 ∉ line) : fieldName line = line := by
  refine List.takeWhile_eq_self_iff.mpr fun c hc => ?_
  simp only [bne_iff_ne]
  rintro rfl
  exact h hc

/-! ## The serialized text -/

/-- The line of a handler's header, without its end. -/
def headerField (header : ResponseHeader) : Bytes := header.key ++ ascii ": " ++ header.value

/-- A header that ends no line and that no reader takes for a framing header. -/
structure ResponseHeader.Plain (header : ResponseHeader) : Prop where
  one_line : ∀ c ∈ header.key ++ header.value, c ≠ CR ∧ c ≠ LF
  no_length : asciiIeq (fieldName header.key) (ascii "content-length") = false
  no_coding : asciiIeq (fieldName header.key) (ascii "transfer-encoding") = false

theorem ResponseHeader.Plain.fieldLine {header : ResponseHeader} (h : header.Plain) :
    FieldLine (headerField header) where
  ne_nil := by simp [headerField, ascii]
  one_line := by
    refine one_line_of_cr_not_mem fun hmem => ?_
    rw [headerField, List.mem_append, List.mem_append] at hmem
    rcases hmem with (hmem | hmem) | hmem
    · exact (h.one_line _ (List.mem_append_left _ hmem)).1 rfl
    · exact absurd hmem (by decide)
    · exact (h.one_line _ (List.mem_append_right _ hmem)).1 rfl

theorem fieldName_headerField (header : ResponseHeader) :
    fieldName (headerField header) = fieldName header.key := by
  have hcolon : headerField header = header.key ++ 58 :: (32 :: header.value) := by
    rw [headerField, List.append_assoc]
    rfl
  rw [hcolon, fieldName_append]

theorem sawContentLength_plain {headers : List ResponseHeader}
    (h : ∀ header ∈ headers, header.Plain) : sawContentLength headers = false := by
  refine List.any_eq_false.mpr fun header hmem hsaw => ?_
  have hcolon : (58 : Byte) ∉ header.key := fun hin =>
    absurd (colon_mem_of_asciiIeq hsaw hin) (by decide)
  have hno := (h header hmem).no_length
  rw [fieldName_eq_self hcolon, hsaw] at hno
  cases hno

def dateField (now : ℤ) : Bytes := ascii "Date: " ++ httpDateFormat now

def connectionField (keepAlive : Bool) : Bytes :=
  if keepAlive then ascii "Connection: keep-alive" else ascii "Connection: close"

def lengthField (size : ℕ) : Bytes := ascii "Content-Length: " ++ showNat size

/-- The header lines of a response with a body in memory. -/
def bufferFields (resp : HttpResponse) (size : ℕ) (keepAlive : Bool) (now : ℤ) : List Bytes :=
  [dateField now] ++ resp.headers.map headerField ++ [connectionField keepAlive] ++
    if 0 < size then [lengthField size] else []

theorem fieldValues_append (lines lines' : List Bytes) (name : Bytes) :
    fieldValues (lines ++ lines') name = fieldValues lines name ++ fieldValues lines' name := by
  rw [fieldValues, List.filter_append, List.map_append]
  rfl

theorem fieldValues_eq_nil {name : Bytes}
    (h : ∀ line ∈ lines, asciiIeq (fieldName line) name = false) : fieldValues lines name = [] := by
  rw [fieldValues, List.filter_eq_nil_iff.mpr fun line hmem => by simp [h line hmem]]
  rfl

theorem fieldName_dateField (now : ℤ) : fieldName (dateField now) = ascii "Date" := by
  unfold dateField
  generalize httpDateFormat now = date
  exact fieldName_append (ascii "Date") (32 :: date)

theorem fieldName_lengthField (size : ℕ) :
    fieldName (lengthField size) = ascii "Content-Length" := by
  unfold lengthField
  generalize showNat size = digits
  exact fieldName_append (ascii "Content-Length") (32 :: digits)

theorem fieldName_connectionField (keepAlive : Bool) :
    fieldName (connectionField keepAlive) = ascii "Connection" := by
  cases keepAlive <;> decide

theorem fieldValue_lengthField (size : ℕ) : fieldValue (lengthField size) = showNat size := by
  have hvalue : fieldValue (lengthField size) = owsTrim (showNat size) := rfl
  rw [hvalue, owsTrim_of_not_ows fun c hc => (mem_showNat hc).2]

variable {resp : HttpResponse} {size : ℕ} {keepAlive : Bool} {now : ℤ}

theorem bufferFields_fieldLine (hheaders : ∀ header ∈ resp.headers, header.Plain) :
    ∀ line ∈ bufferFields resp size keepAlive now, FieldLine line := by
  intro line hmem
  simp only [bufferFields, List.mem_append, List.mem_singleton, List.mem_map] at hmem
  rcases hmem with ((rfl | ⟨header, hheader, rfl⟩) | rfl) | hmem
  · refine ⟨by simp [dateField, ascii], one_line_of_cr_not_mem fun h => ?_⟩
    rcases List.mem_append.mp h with h | h
    · exact absurd h (by decide)
    · exact cr_not_mem_httpDateFormat now h
  · exact (hheaders header hheader).fieldLine
  · cases keepAlive <;> exact ⟨by decide, one_line_of_cr_not_mem (by decide)⟩
  · split at hmem
    · obtain rfl := List.mem_singleton.mp hmem
      refine ⟨by simp [lengthField, ascii], one_line_of_cr_not_mem fun h => ?_⟩
      rcases List.mem_append.mp h with h | h
      · exact absurd h (by decide)
      · exact (mem_showNat h).1 rfl
    · cases hmem

theorem bufferFields_codings (hheaders : ∀ header ∈ resp.headers, header.Plain) :
    fieldValues (bufferFields resp size keepAlive now) (ascii "transfer-encoding") = [] := by
  refine fieldValues_eq_nil fun line hmem => ?_
  simp only [bufferFields, List.mem_append, List.mem_singleton, List.mem_map] at hmem
  rcases hmem with ((rfl | ⟨header, hheader, rfl⟩) | rfl) | hmem
  · rw [fieldName_dateField]
    decide
  · rw [fieldName_headerField]
    exact (hheaders header hheader).no_coding
  · rw [fieldName_connectionField]
    decide
  · split at hmem
    · obtain rfl := List.mem_singleton.mp hmem
      rw [fieldName_lengthField]
      decide
    · cases hmem

/-- The only length is the one that the serializer adds. -/
theorem bufferFields_lengths (hheaders : ∀ header ∈ resp.headers, header.Plain) :
    fieldValues (bufferFields resp size keepAlive now) (ascii "content-length") =
      if 0 < size then [showNat size] else [] := by
  have hfront : fieldValues ([dateField now] ++ resp.headers.map headerField ++
      [connectionField keepAlive]) (ascii "content-length") = [] := by
    refine fieldValues_eq_nil fun line hmem => ?_
    simp only [List.mem_append, List.mem_singleton, List.mem_map] at hmem
    rcases hmem with (rfl | ⟨header, hheader, rfl⟩) | rfl
    · rw [fieldName_dateField]
      decide
    · rw [fieldName_headerField]
      exact (hheaders header hheader).no_length
    · rw [fieldName_connectionField]
      decide
  rw [bufferFields, fieldValues_append, hfront, List.nil_append]
  split
  · have hname : asciiIeq (fieldName (lengthField size)) (ascii "content-length") = true := by
      rw [fieldName_lengthField]
      decide
    simp only [fieldValues, List.filter_cons, hname, if_true, List.filter_nil, List.map_cons,
      List.map_nil, fieldValue_lengthField]
  · rfl

def startField (resp : HttpResponse) : Bytes :=
  HTTP_1_1 ++ [SP] ++ showInt resp.status ++ [SP] ++ resp.reason

theorem startField_one_line (h : ¬ CRLF <:+: resp.reason) : ¬ CRLF <:+: startField resp := by
  have hfront : CR ∉ HTTP_1_1 ++ [SP] ++ showInt resp.status ++ [SP] := by
    simp only [List.mem_append, cr_not_mem_showInt, or_false]
    decide
  rintro ⟨before, behind, hsplit⟩
  rw [startField] at hsplit
  generalize HTTP_1_1 ++ [SP] ++ showInt resp.status ++ [SP] = front at hfront hsplit
  rw [List.append_assoc] at hsplit
  rcases List.append_eq_append_iff.mp hsplit with ⟨mid, hmid, hrest⟩ | ⟨mid, hmid, hrest⟩
  · cases mid with
    | nil => exact h ⟨[], behind, by simpa using hrest⟩
    | cons c mid =>
      obtain rfl : CR = c := (List.cons.inj hrest).1
      exact hfront (hmid ▸ List.mem_append_right _ (List.mem_cons_self ..))
  · exact h ⟨mid, behind, by rw [List.append_assoc, ← hrest]⟩

/-- The canned errors have a reason of one line and no headers. -/
theorem responseErrorFromStatus_plain (status : ParseStatus) :
    ¬ CRLF <:+: (responseErrorFromStatus status).reason ∧
      (responseErrorFromStatus status).headers = [] := by
  cases status <;> exact ⟨one_line_of_cr_not_mem (by decide), rfl⟩

/-- The text of a response with a body in memory, by lines. -/
theorem responseText_buffer {buffer : Option Bytes} (hbody : resp.body = .buffer buffer size)
    (hheaders : ∀ header ∈ resp.headers, header.Plain) :
    responseText resp keepAlive now =
      startField resp ++ CRLF ++ ((bufferFields resp size keepAlive now).flatMap (· ++ CRLF) ++
        (CRLF ++ bodyText resp)) := by
  have hframing : framingText resp =
      (if 0 < size then [lengthField size] else []).flatMap (· ++ CRLF) := by
    simp only [framingText, hbody, sawContentLength_plain hheaders, Bool.not_false, Bool.true_and,
      decide_eq_true_eq]
    split <;> simp [contentLengthLine, lengthField]
  have hheaderText : resp.headers.flatMap headerText =
      (resp.headers.map headerField).flatMap (· ++ CRLF) := by
    rw [List.flatMap_map]
    rfl
  have hconnection : connectionLine keepAlive = connectionField keepAlive ++ CRLF := rfl
  have hdate : dateLine now = dateField now ++ CRLF := rfl
  have hstart : startLine resp = startField resp ++ CRLF := rfl
  rw [responseText, responseHeadText, hframing, hheaderText, hconnection, hdate, hstart,
    bufferFields]
  simp only [List.flatMap_append, List.flatMap_cons, List.flatMap_nil, List.append_nil,
    List.append_assoc]

/-- A reader finds the end of a response with a body in memory exactly when the body is not
empty. -/
theorem receive_buffer_iff (dechunk : Bytes → Option (Bytes × Bytes)) (resp : HttpResponse)
    (buffer : Option Bytes) (size cap : ℕ) (now : ℤ) (out : Bytes)
    (hbody : resp.body = .buffer buffer size) (hsize : size ≤ (buffer.getD []).length)
    (hheadOnly : resp.headOnly = false) (hreason : ¬ CRLF <:+: resp.reason)
    (hheaders : ∀ header ∈ resp.headers, header.Plain)
    (hout : (responseSerialize resp cap true now).result = some out) :
    (∀ more, receive dechunk (out ++ more) = some ((buffer.getD []).take size, more)) ↔
      0 < size := by
  obtain rfl := (responseSerialize_holds resp cap true now).result hout
  have hbodyText : bodyText resp = (buffer.getD []).take size := by
    cases buffer with
    | none => simp [bodyText, hbody]
    | some bytes =>
      simp only [bodyText, hbody, hheadOnly, Bool.not_false, Bool.true_and, decide_eq_true_eq,
        Option.getD_some]
      by_cases hzero : size = 0 <;> simp [hzero, Nat.pos_iff_ne_zero]
  have hlen : (bodyText resp).length = size := by
    rw [hbodyText, List.length_take, Nat.min_eq_left hsize]
  have hreceive : ∀ more, receive dechunk (responseText resp true now ++ more) =
      readPlain (if 0 < size then [showNat size] else []) (bodyText resp ++ more) := by
    intro more
    have hlines : ∀ line ∈ bufferFields resp size true now, FieldLine line :=
      bufferFields_fieldLine hheaders
    have hread := receive_lines dechunk (startField_one_line hreason) hlines
      (bufferFields_codings hheaders) (bodyText resp ++ more)
    rw [bufferFields_lengths hheaders] at hread
    rw [← hread, responseText_buffer hbody hheaders]
    simp only [List.append_assoc]
  simp only [hreceive, ← hbodyText]
  constructor
  · intro hall
    by_contra hzero
    have hmore := hall [0]
    obtain hnil : bodyText resp = [] := List.length_eq_zero_iff.mp (by omega)
    rw [if_neg hzero, hnil] at hmore
    simp [readPlain] at hmore
  · intro hpos more
    rw [if_pos hpos, readPlain, numeral_showNat]
    dsimp only
    have hfits : size ≤ (bodyText resp ++ more).length := by
      rw [List.length_append]
      omega
    rw [if_pos ⟨showNat_ne_nil size, rfl, hfits⟩, ← hlen, List.take_left, List.drop_left]

def helloResponse : HttpResponse :=
  responseBuffer 200 (ascii "OK") (some (ascii "hi")) 2
    [⟨ascii "Content-Type", ascii "text/plain"⟩]

theorem receive_buffer_iff_hello :
    (∀ more, receive (fun _ => none) (responseText helloResponse true 0 ++ more) =
        some (((some (ascii "hi")).getD []).take 2, more)) ↔ 0 < 2 := by
  refine receive_buffer_iff (fun _ => none) helloResponse (some (ascii "hi")) 2
    HTTP_RESPONSE_BUFFER_SIZE 0 _ rfl (by decide) rfl (one_line_of_cr_not_mem (by decide)) ?_
    (by decide +kernel)
  intro header hmem
  obtain rfl := List.mem_singleton.mp hmem
  exact ⟨by decide +kernel, by decide +kernel, by decide +kernel⟩

def emptyResponse : HttpResponse := responseBuffer 200 (ascii "OK") (some []) 0 []

/-- On a connection that is kept the next response is taken for the body of an empty one. -/
theorem receive_empty :
    (responseSerialize emptyResponse HTTP_RESPONSE_BUFFER_SIZE true 0).result =
        some (responseText emptyResponse true 0) ∧
      ¬ ∀ more, receive (fun _ => none) (responseText emptyResponse true 0 ++ more) =
        some ([], more) := by
  have hread : receive (fun _ => none) (responseText emptyResponse true 0 ++ ascii "HTTP/1.1 404") =
      some (ascii "HTTP/1.1 404", []) := by decide +kernel
  refine ⟨by decide +kernel, fun hall => ?_⟩
  rw [hall] at hread
  exact absurd hread (by decide)

end HttpServer
