import HttpServer.FramingLines

/-!
# What a head says about the connection

The `Connection` lines of a head are read by their comma-separated options. A head
has the line of the serializer and any that the handler has given; the rest of what
the serializer adds says nothing.
-/

namespace HttpServer

variable {line : Bytes} {lines front rest : List Bytes} {resp : HttpResponse} {keepAlive : Bool}
  {now : ℤ}

/-- `close` says that the connection ends, `keep-alive` that it goes on. -/
def connectionOption (token : Bytes) : Option Bool :=
  if asciiIeq token (ascii "close") then some false
  else if asciiIeq token (ascii "keep-alive") then some true
  else none

/-- What one value of a `Connection` line says. -/
def connectionOptions (value : Bytes) : List Bool :=
  (value.splitOn 44).filterMap fun token => connectionOption (owsTrim token)

/-- All that the lines of a head say about the connection. -/
def announcements (lines : List Bytes) : List Bool :=
  (fieldValues lines (ascii "connection")).flatMap connectionOptions

theorem announcements_append (lines lines' : List Bytes) :
    announcements (lines ++ lines') = announcements lines ++ announcements lines' := by
  rw [announcements, fieldValues_append, List.flatMap_append]
  rfl

theorem announcements_cons (line : Bytes) (lines : List Bytes) :
    announcements (line :: lines) = announcements [line] ++ announcements lines :=
  announcements_append [line] lines

theorem announcements_eq_nil (h : ∀ line ∈ lines, asciiIeq (fieldName line) (ascii "connection") =
    false) : announcements lines = [] := by
  rw [announcements, fieldValues_eq_nil h]
  rfl

theorem announcements_dateField (now : ℤ) : announcements [dateField now] = [] := by
  apply announcements_eq_nil
  intro line hmem
  rw [List.mem_singleton.mp hmem, fieldName_dateField]
  decide

theorem announcements_framingLines (resp : HttpResponse) :
    announcements (framingLines resp) = [] := by
  apply announcements_eq_nil
  intro line hmem
  rcases framingLines_cases resp with ⟨-, hlines⟩ | ⟨-, ⟨size, hlines⟩ | hlines⟩
  · rw [hlines] at hmem
    cases hmem
  · rw [hlines] at hmem
    rw [List.mem_singleton.mp hmem, fieldName_lengthField]
    decide
  · rw [hlines] at hmem
    rw [List.mem_singleton.mp hmem]
    decide

theorem announcements_connectionField (keepAlive : Bool) :
    announcements [connectionField keepAlive] = [keepAlive] := by
  cases keepAlive <;> decide +kernel

/-! ## The head of a response -/

/-- A line that is not empty and says nothing may be left out of a head. -/
theorem announcements_takeWhile_insert (hne : line ≠ []) (hsaid : announcements [line] = [])
    (front rest : List Bytes) :
    announcements ((front ++ line :: rest).takeWhile (· ≠ [])) =
      announcements ((front ++ rest).takeWhile (· ≠ [])) := by
  induction front with
  | nil =>
    rw [List.nil_append, List.nil_append, List.takeWhile_cons, decide_eq_true hne, if_pos rfl,
      announcements_cons, hsaid, List.nil_append]
  | cons first front ih =>
    rw [List.cons_append, List.cons_append, List.takeWhile_cons, List.takeWhile_cons]
    split
    · rw [announcements_cons, ih, ← announcements_cons]
    · rfl

/-- What the handler's own lines say, up to an empty one. -/
def HttpResponse.announcements (resp : HttpResponse) : List Bool :=
  HttpServer.announcements ((givenLines resp).takeWhile (· ≠ []))

/-- The head says what the handler's lines say and then what the serializer's line says, unless an
empty line among the handler's ends the head before. -/
theorem announcements_responseText (resp : HttpResponse) (keepAlive : Bool) (now : ℤ) :
    announcements (headLines (responseText resp keepAlive now)) =
      resp.announcements ++ if [] ∈ givenLines resp then [] else [keepAlive] := by
  have hdate : dateField now ≠ [] := by simp [dateField, ascii]
  have hconnection : connectionField keepAlive ≠ [] := by cases keepAlive <;> decide
  rw [headLines_responseText,
    announcements_takeWhile_insert hdate (announcements_dateField now), ← List.append_assoc]
  change announcements ((givenLines resp ++ _).takeWhile _) = _
  rw [HttpResponse.announcements, List.takeWhile_append]
  by_cases hempty : [] ∈ givenLines resp
  · have hshort : ((givenLines resp).takeWhile (· ≠ [])).length ≠ (givenLines resp).length := by
      intro hlen
      have hall := (List.takeWhile_prefix (· ≠ [])).eq_of_length hlen
      have hkeeps := List.takeWhile_eq_self_iff.mp hall [] hempty
      exact absurd rfl (of_decide_eq_true hkeeps)
    rw [if_neg hshort, if_pos hempty, List.append_nil]
  · have hall : (givenLines resp).takeWhile (· ≠ []) = givenLines resp := by
      refine List.takeWhile_eq_self_iff.mpr fun line hmem => decide_eq_true ?_
      rintro rfl
      exact hempty hmem
    have hframing : (framingLines resp ++ [] :: textLines (bodyText resp)).takeWhile (· ≠ []) =
        framingLines resp := by
      rw [List.takeWhile_append_of_pos fun line hmem =>
        decide_eq_true (framingLines_ne_nil resp line hmem)]
      exact List.append_nil _
    rw [hall, if_pos rfl, if_neg hempty, List.takeWhile_cons, decide_eq_true hconnection,
      if_pos rfl, hframing, announcements_append, announcements_cons,
      announcements_connectionField, announcements_framingLines, List.append_nil]

/-- Among headers of one line each only those named `Connection` say something. -/
theorem HttpResponse.announcements_plain (hreason : ¬ CRLF <:+: resp.reason)
    (hheaders : ∀ header ∈ resp.headers, ¬ CRLF <:+: headerField header)
    (hnames : ∀ header ∈ resp.headers,
      asciiIeq (fieldName header.key) (ascii "connection") = false) :
    resp.announcements = [] ∧ [] ∉ givenLines resp := by
  rw [HttpResponse.announcements, givenLines_plain hreason hheaders]
  constructor
  · apply announcements_eq_nil
    intro line hmem
    obtain ⟨header, hheader, rfl⟩ := List.mem_map.mp ((List.takeWhile_prefix _).subset hmem)
    rw [fieldName_headerField]
    exact hnames header hheader
  · intro hmem
    obtain ⟨header, -, hnil⟩ := List.mem_map.mp hmem
    exact absurd hnil (by simp [headerField, ascii])

theorem announcements_error (status : ParseStatus) :
    (responseErrorFromStatus status).announcements = [] ∧
      [] ∉ givenLines (responseErrorFromStatus status) := by
  obtain ⟨hreason, hnone⟩ := responseErrorFromStatus_plain status
  apply HttpResponse.announcements_plain hreason
  · rw [hnone]
    exact fun header hmem => (nomatch hmem)
  · rw [hnone]
    exact fun header hmem => (nomatch hmem)

end HttpServer
