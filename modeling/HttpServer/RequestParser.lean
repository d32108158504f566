import HttpServer.Parser

/-!
# The request parser

`HttpRequestLine.c`, `HttpHeaders.c` and `HttpRequest.c`. Every parser gets the
whole buffer and the range it may look at, and returns the updated output
structure beside its result.
-/

namespace HttpServer

/-! ## HttpRequestLine.c -/

def httpMethodParse (buf : Bytes) (s len : ℕ) : HttpMethod :=
  if memEq buf s (ascii "GET") && len == 3 then .get
  else if memEq buf s (ascii "POST") && len == 4 then .post
  else if memEq buf s (ascii "PUT") && len == 3 then .put
  else if memEq buf s (ascii "DELETE") && len == 6 then .delete
  else .unknown

def httpMethodShow : HttpMethod → Bytes
  | .get => ascii "GET"
  | .post => ascii "POST"
  | .put => ascii "PUT"
  | .delete => ascii "DELETE"
  | _ => ascii "UNKNOWN"

def methodParse (buf : Bytes) (cur fin : ℕ) (line : HttpRequestLine) :
    ParseResult × HttpRequestLine :=
  let res := parseErrorSet {} .badRequest cur
  if cur ≥ fin then (res, line)
  else if byteAt buf cur == SP then (res, line)
  else match memchr buf cur fin SP with
    | none => (res, line)
    | some sp =>
      let line := { line with method := httpMethodParse buf cur (sp - cur) }
      if line.method = .unknown then (res, line)
      else ({ res with status := .ok, next := some (sp + 1) }, line)

/-- The local variables of `uri_parse`: the buffer that is being filled and the two strings
stored so far. -/
structure UriScan where
  inQuery : Bool := false
  path : Bytes := []
  query : Bytes := []

def UriScan.len (s : UriScan) : ℕ := if s.inQuery then s.query.length else s.path.length

def UriScan.cap (s : UriScan) : ℕ := if s.inQuery then HTTP_MAX_QUERY_LEN else HTTP_MAX_PATH_LEN

def UriScan.put (s : UriScan) (bs : Bytes) : UriScan :=
  if s.inQuery then { s with query := s.query ++ bs } else { s with path := s.path ++ bs }

/-- The loop of `uri_parse` on the bytes from offset `pos` to the space. An error carries the
status and, where the loop moves it, the error position. -/
def uriParseLoop (pos : ℕ) : Bytes → UriScan → Option (ParseStatus × Option ℕ) × UriScan
  | [], s => (none, s)
  | c :: rest, s =>
    if c < 0x20 || 0x7f ≤ c then (some (.badRequest, none), s)
    else if c == 35 then (some (.badRequest, none), s)
    else if !s.inQuery && c == 63 then
      uriParseLoop (pos + 1) rest { s with inQuery := true, query := s.query ++ [c] }
    else if s.len ≥ s.cap - 1 then (some (.uriTooLong, some pos), s)
    else if c == 37 then
      match rest with
      | h₁ :: h₂ :: rest =>
        if !isHex h₁ || !isHex h₂ then (some (.badRequest, some pos), s)
        else if s.len + 3 > s.cap - 1 then (some (.uriTooLong, some pos), s)
        else uriParseLoop (pos + 3) rest (s.put [c, h₁, h₂])
      | _ => (some (.badRequest, some pos), s)
    else uriParseLoop (pos + 1) rest (s.put [c])

def uriParse (buf : Bytes) (cur fin : ℕ) (line : HttpRequestLine) :
    ParseResult × HttpRequestLine :=
  let res := parseErrorSet {} .badRequest cur
  if cur ≥ fin then (res, line)
  else match memchr buf cur fin SP with
    | none => (res, line)
    | some sp =>
      if byteAt buf cur != 47 then (res, line)
      else match uriParseLoop cur (range buf cur sp) {} with
        | (some (status, pos), s) =>
          ({ res with status := status, errorPosition := pos.or res.errorPosition },
            { line with path := s.path, query := s.query })
        | (none, s) =>
          ({ res with status := .ok, next := some (sp + 1) },
            { line with path := s.path, query := s.query })

def versionParse (buf : Bytes) (cur fin : ℕ) (line : HttpRequestLine) :
    ParseResult × HttpRequestLine :=
  let res := parseErrorSet {} .badRequest cur
  if (fin : ℤ) - cur ≠ HTTP_VERSION_LEN then (res, line)
  else if !memEq buf cur (ascii "HTTP/") then (res, line)
  else
    let d₁ := byteAt buf (cur + 5)
    let period := byteAt buf (cur + 6)
    let d₂ := byteAt buf (fin - 1)
    if !isDigit d₁ || !isDigit d₂ || period != 46 then (res, line)
    else if !(memEq buf (cur + 5) (ascii "0.9") || memEq buf (cur + 5) (ascii "1.0") ||
        memEq buf (cur + 5) (ascii "1.1")) then
      (parseErrorSet res .versionNotSupported cur, line)
    else
      ({ res with status := .ok, next := some fin },
        { line with version := range buf cur (cur + HTTP_VERSION_LEN) })

def requestLineParse (buf : Bytes) (cur fin : ℕ) (line : HttpRequestLine) :
    ParseResult × HttpRequestLine :=
  let (methodRes, line) := methodParse buf cur fin line
  if methodRes.status ≠ .ok then (methodRes, line)
  else
    let (uriRes, line) := uriParse buf (methodRes.next.getD 0) fin line
    if uriRes.status ≠ .ok then (uriRes, line)
    else versionParse buf (uriRes.next.getD 0) fin line

/-! ## HttpHeaders.c -/

/-- The loop of `header_key_parse` on the bytes from offset `pos` to the colon. -/
def headerKeyLoop (start : ℕ) : ℕ → Bytes → Bytes → Except (ParseStatus × ℕ) Bytes
  | _, [], key => .ok key
  | pos, c :: rest, key =>
    if !isTchar c then .error (.badRequest, start)
    else if key.length ≥ HTTP_MAX_HEADER_KEY_LEN - 1 then .error (.headerKeyTooLong, pos)
    else headerKeyLoop start (pos + 1) rest (key ++ [c])

/-- `fin` is where the colon should stand, so the byte at `fin` is looked at too. -/
def headerKeyParse (buf : Bytes) (cur fin : ℕ) (header : Header) : ParseResult × Header :=
  let res := parseErrorSet {} .badRequest cur
  if cur ≥ fin || !isColon (byteAt buf fin) then (res, header)
  else match headerKeyLoop cur cur (range buf cur fin) [] with
    | .error (status, pos) => (parseErrorSet res status pos, header)
    | .ok key => ({ res with status := .ok, next := some (fin + 1) }, { header with key := key })

def headerValueParse (buf : Bytes) (cur fin : ℕ) (header : Header) : ParseResult × Header :=
  let res := parseErrorSet {} .badRequest cur
  if (fin : ℤ) - cur > HTTP_MAX_HEADER_VALUE_LEN - 1 then
    (parseErrorSet res .headerValueTooLong cur, header)
  else if cur > fin then (res, header)
  else
    let cur := owsSkip buf cur fin
    let trimmedEnd := owsTrimTrailing buf cur fin
    if (range buf cur trimmedEnd).all isFieldContentByte then
      ({ res with status := .ok, next := some fin },
        { header with value := range buf cur trimmedEnd })
    else (res, header)

def headerLineParse (buf : Bytes) (cur fin : ℕ) (headers : List Header) :
    ParseResult × List Header :=
  if cur ≥ fin then (parseErrorSet {} .badRequest cur, headers)
  else
    let (keyRes, header) := headerKeyParse buf cur (colonFind buf cur fin) {}
    if keyRes.status ≠ .ok then (keyRes, headers)
    else
      let (valueRes, header) := headerValueParse buf (keyRes.next.getD 0) fin header
      if valueRes.status ≠ .ok then (valueRes, headers)
      else if headers.length ≥ HTTP_MAX_HEADERS then
        (parseErrorSet valueRes .headerTooLong cur, headers)
      else ({ valueRes with status := .ok }, headers ++ [header])

def crlfParse (buf : Bytes) (cur fin : ℕ) : ParseResult :=
  if cur + 2 ≤ fin && isCrlf buf cur then { status := .ok, next := some (cur + 2) }
  else parseErrorSet {} .badRequest cur

/-- Returns the first match. -/
def headerFind (headers : List Header) (name : Bytes) : Option Header :=
  headers.find? fun header => asciiIeq header.key name

/-! ## HttpRequest.c -/

/-- The header loop of `request_parse`. Each turn consumes a line, so `fuel` of the buffer's
length is never used up. -/
def requestParseLoop (buf : Bytes) (fin : ℕ) :
    ℕ → ℕ → ParseResult → List Header → ParseResult × List Header
  | 0, cur, _, headers => (parseErrorSet {} .badRequest cur, headers)
  | fuel + 1, cur, headerRes, headers =>
    let eol := crlfParse buf cur fin
    if eol.status = .ok then
      ({ headerRes with status := .ok, next := eol.next }, headers)
    else
      let (headerRes, headers) := headerLineParse buf cur (crlfFind buf cur fin) headers
      if headerRes.status ≠ .ok then (headerRes, headers)
      else
        let headerRes := crlfParse buf (headerRes.next.getD 0) fin
        if headerRes.status ≠ .ok then (headerRes, headers)
        else requestParseLoop buf fin fuel (headerRes.next.getD 0) headerRes headers

def requestParse (buf : Bytes) (req : HttpRequest) : ParseResult × HttpRequest :=
  let fin := owsTrimTrailing buf 0 buf.length
  let (reqLineRes, line) := requestLineParse buf 0 (crlfFind buf 0 fin) req.requestLine
  let req := { req with requestLine := line }
  if reqLineRes.status ≠ .ok then (reqLineRes, req)
  else
    let reqLineRes := crlfParse buf (reqLineRes.next.getD 0) fin
    if reqLineRes.status ≠ .ok then (reqLineRes, req)
    else
      let (headerRes, headers) :=
        requestParseLoop buf fin (buf.length + 1) (reqLineRes.next.getD 0) {} req.headers
      (headerRes, { req with headers := headers })

end HttpServer
