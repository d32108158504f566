import HttpServer.CheckedMemory
import HttpServer.RequestParser

/-!
# The request parser, access by access

The functions of `parser.c`, `HttpRequestLine.c`, `HttpHeaders.c` and `HttpRequest.c`
once more, this time with their loops, and with every read of the buffer and every
store into an array as an access of its own.
-/

namespace HttpServer.Checked

open CheckedMemory

inductive ParseArray where
  | buf | path | query | version | key | value | headers
  deriving DecidableEq, Repr

abbrev Parse := Except (Fault ParseArray)

/-- `*p`. -/
def byte (buf : Bytes) (p : ℤ) : Parse Byte := load .buf buf p

/-- `memcmp(p, s, strlen(s)) == 0`, which may read all the bytes whatever it finds. -/
def memEq (buf : Bytes) (p : ℕ) (s : Bytes) : Parse Bool := do
  return (← loadAll .buf buf p s.length) == s

def memchr (buf : Bytes) (cur fin : ℕ) (c : Byte) : Parse (Option ℕ) :=
  if cur < fin then do
    if (← byte buf cur) == c then return some cur
    memchr buf (cur + 1) fin c
  else return none

/-! ## parser.c -/

def isCrlf (buf : Bytes) (cur : ℕ) : Parse Bool := do
  if (← byte buf cur) == CR then return (← byte buf ↑(cur + 1)) == LF
  return false

def crlfFind (buf : Bytes) (cur fin : ℕ) : Parse ℕ :=
  if cur + 1 < fin then do
    if ← isCrlf buf cur then return cur
    crlfFind buf (cur + 1) fin
  else return fin

def colonFind (buf : Bytes) (cur fin : ℕ) : Parse ℕ :=
  if cur < fin then do
    if isColon (← byte buf cur) then return cur
    colonFind buf (cur + 1) fin
  else return fin

def owsSkip (buf : Bytes) (cur fin : ℕ) : Parse ℕ :=
  if cur < fin then do
    if isOws (← byte buf cur) then owsSkip buf (cur + 1) fin else return cur
  else return cur

def owsTrimTrailing (buf : Bytes) (start fin : ℕ) : Parse ℕ :=
  if start < fin then do
    if isOws (← byte buf (fin - 1)) then owsTrimTrailing buf start (fin - 1) else return fin
  else return fin

/-! ## HttpRequestLine.c -/

def httpMethodParse (buf : Bytes) (s len : ℕ) : Parse HttpMethod := do
  if (← memEq buf s (ascii "GET")) && len == 3 then return .get
  if (← memEq buf s (ascii "POST")) && len == 4 then return .post
  if (← memEq buf s (ascii "PUT")) && len == 3 then return .put
  if (← memEq buf s (ascii "DELETE")) && len == 6 then return .delete
  return .unknown

def methodParse (buf : Bytes) (cur fin : ℕ) (line : HttpRequestLine) :
    Parse (ParseResult × HttpRequestLine) := do
  let res := parseErrorSet {} .badRequest cur
  if cur ≥ fin then return (res, line)
  if (← byte buf cur) == SP then return (res, line)
  match ← memchr buf cur fin SP with
  | none => return (res, line)
  | some sp =>
    let line := { line with method := ← httpMethodParse buf cur (sp - cur) }
    if line.method = .unknown then return (res, line)
    return ({ res with status := .ok, next := some (sp + 1) }, line)

/-- `buf[(*len_ptr)++] = c` in `uri_parse`. -/
def uriPut (s : UriScan) (c : Byte) : Parse UriScan := do
  checkStore (if s.inQuery then .query else .path) s.cap s.len
  return s.put [c]

/-- The loop of `uri_parse`; `pos` is `cur + i`, before `i` is incremented. -/
def uriParseLoop (buf : Bytes) (sp pos : ℕ) (s : UriScan) :
    Parse (Option (ParseStatus × Option ℕ) × UriScan) :=
  if pos < sp then do
    let c ← byte buf pos
    if c < 0x20 || 0x7f ≤ c then return (some (.badRequest, none), s)
    if c == 35 then return (some (.badRequest, none), s)
    if !s.inQuery && c == 63 then
      uriParseLoop buf sp (pos + 1) (← uriPut { s with inQuery := true } c)
    else if s.len ≥ s.cap - 1 then return (some (.uriTooLong, some pos), s)
    else if c == 37 then
      if pos + 1 + 2 > sp then return (some (.badRequest, some pos), s)
      if !isHex (← byte buf ↑(pos + 1)) then return (some (.badRequest, some pos), s)
      if !isHex (← byte buf ↑(pos + 2)) then return (some (.badRequest, some pos), s)
      if s.len + 3 > s.cap - 1 then return (some (.uriTooLong, some pos), s)
      let s ← uriPut s c
      let s ← uriPut s (← byte buf ↑(pos + 1))
      let s ← uriPut s (← byte buf ↑(pos + 2))
      uriParseLoop buf sp (pos + 3) s
    else uriParseLoop buf sp (pos + 1) (← uriPut s c)
  else return (none, s)
termination_by sp - pos

def uriParse (buf : Bytes) (cur fin : ℕ) (line : HttpRequestLine) :
    Parse (ParseResult × HttpRequestLine) := do
  let res := parseErrorSet {} .badRequest cur
  if cur ≥ fin then return (res, line)
  match ← memchr buf cur fin SP with
  | none => return (res, line)
  | some sp =>
    if (← byte buf cur) != 47 then return (res, line)
    match ← uriParseLoop buf sp cur {} with
    | (some (status, pos), s) =>
      return ({ res with status := status, errorPosition := pos.or res.errorPosition },
        { line with path := s.path, query := s.query })
    | (none, s) =>
      checkStore .query HTTP_MAX_QUERY_LEN s.query.length
      checkStore .path HTTP_MAX_PATH_LEN s.path.length
      return ({ res with status := .ok, next := some (sp + 1) },
        { line with path := s.path, query := s.query })

/-- The size of the array `version`. -/
def VERSION_SIZE : ℕ := HTTP_VERSION_LEN * 2

/-- `valid_version`: the comparisons stop at the first match. -/
def validVersion (buf : Bytes) (p : ℕ) : Parse Bool := do
  if ← memEq buf p (ascii "0.9") then return true
  if ← memEq buf p (ascii "1.0") then return true
  memEq buf p (ascii "1.1")

def versionParse (buf : Bytes) (cur fin : ℕ) (line : HttpRequestLine) :
    Parse (ParseResult × HttpRequestLine) := do
  let res := parseErrorSet {} .badRequest cur
  if (fin : ℤ) - cur ≠ HTTP_VERSION_LEN then return (res, line)
  if !(← memEq buf cur (ascii "HTTP/")) then return (res, line)
  let d₁ ← byte buf ↑(cur + 5)
  let period ← byte buf ↑(cur + 6)
  let d₂ ← byte buf (fin - 1)
  if !isDigit d₁ || !isDigit d₂ || period != 46 then return (res, line)
  if !(← validVersion buf (cur + 5)) then
    return (parseErrorSet res .versionNotSupported cur, line)
  let version ← loadAll .buf buf cur HTTP_VERSION_LEN
  checkStores .version VERSION_SIZE 0 HTTP_VERSION_LEN
  checkStore .version VERSION_SIZE HTTP_VERSION_LEN
  return ({ res with status := .ok, next := some fin }, { line with version := version })

def requestLineParse (buf : Bytes) (cur fin : ℕ) (line : HttpRequestLine) :
    Parse (ParseResult × HttpRequestLine) := do
  let (methodRes, line) ← methodParse buf cur fin line
  if methodRes.status ≠ .ok then return (methodRes, line)
  let (uriRes, line) ← uriParse buf (methodRes.next.getD 0) fin line
  if uriRes.status ≠ .ok then return (uriRes, line)
  versionParse buf (uriRes.next.getD 0) fin line

/-! ## HttpHeaders.c -/

def headerKeyLoop (buf : Bytes) (start fin pos : ℕ) (key : Bytes) :
    Parse (Except (ParseStatus × ℕ) Bytes) :=
  if pos < fin then do
    let c ← byte buf pos
    if !isTchar c then return .error (.badRequest, start)
    if key.length ≥ HTTP_MAX_HEADER_KEY_LEN - 1 then return .error (.headerKeyTooLong, pos)
    checkStore .key HTTP_MAX_HEADER_KEY_LEN key.length
    headerKeyLoop buf start fin (pos + 1) (key ++ [c])
  else return .ok key
termination_by fin - pos

def headerKeyParse (buf : Bytes) (cur fin : ℕ) (header : Header) :
    Parse (ParseResult × Header) := do
  let res := parseErrorSet {} .badRequest cur
  if cur ≥ fin then return (res, header)
  if !isColon (← byte buf fin) then return (res, header)
  match ← headerKeyLoop buf cur fin cur [] with
  | .error (status, pos) => return (parseErrorSet res status pos, header)
  | .ok key =>
    checkStore .key HTTP_MAX_HEADER_KEY_LEN key.length
    return ({ res with status := .ok, next := some (fin + 1) }, { header with key := key })

/-- `none` when a byte is not allowed in a field value. -/
def headerValueLoop (buf : Bytes) (fin pos : ℕ) (value : Bytes) : Parse (Option Bytes) :=
  if pos < fin then do
    let c ← byte buf pos
    if !isFieldContentByte c then return none
    checkStore .value HTTP_MAX_HEADER_VALUE_LEN value.length
    headerValueLoop buf fin (pos + 1) (value ++ [c])
  else return some value

def headerValueParse (buf : Bytes) (cur fin : ℕ) (header : Header) :
    Parse (ParseResult × Header) := do
  let res := parseErrorSet {} .badRequest cur
  if (fin : ℤ) - cur > HTTP_MAX_HEADER_VALUE_LEN - 1 then
    return (parseErrorSet res .headerValueTooLong cur, header)
  if cur > fin then return (res, header)
  let cur ← owsSkip buf cur fin
  let trimmedEnd ← owsTrimTrailing buf cur fin
  match ← headerValueLoop buf trimmedEnd cur [] with
  | none => return (res, header)
  | some value =>
    checkStore .value HTTP_MAX_HEADER_VALUE_LEN value.length
    return ({ res with status := .ok, next := some fin }, { header with value := value })

def headerLineParse (buf : Bytes) (cur fin : ℕ) (headers : List Header) :
    Parse (ParseResult × List Header) := do
  if cur ≥ fin then return (parseErrorSet {} .badRequest cur, headers)
  let (keyRes, header) ← headerKeyParse buf cur (← colonFind buf cur fin) {}
  if keyRes.status ≠ .ok then return (keyRes, headers)
  let (valueRes, header) ← headerValueParse buf (keyRes.next.getD 0) fin header
  if valueRes.status ≠ .ok then return (valueRes, headers)
  if headers.length ≥ HTTP_MAX_HEADERS then
    return (parseErrorSet valueRes .headerTooLong cur, headers)
  checkStore .headers HTTP_MAX_HEADERS headers.length
  return ({ valueRes with status := .ok }, headers ++ [header])

def crlfParse (buf : Bytes) (cur fin : ℕ) : Parse ParseResult := do
  if cur + 2 ≤ fin then
    if ← isCrlf buf cur then return { status := .ok, next := some (cur + 2) }
  return parseErrorSet {} .badRequest cur

/-! ## HttpRequest.c -/

/-- A loop that is still running when the fuel is used up counts as a fault. -/
def requestParseLoop (buf : Bytes) (fin : ℕ) :
    ℕ → ℕ → ParseResult → List Header → Parse (ParseResult × List Header)
  | 0, _, _, _ => .error .diverges
  | fuel + 1, cur, headerRes, headers => do
    let eol ← crlfParse buf cur fin
    if eol.status = .ok then return ({ headerRes with status := .ok, next := eol.next }, headers)
    let (headerRes, headers) ← headerLineParse buf cur (← crlfFind buf cur fin) headers
    if headerRes.status ≠ .ok then return (headerRes, headers)
    let headerRes ← crlfParse buf (headerRes.next.getD 0) fin
    if headerRes.status ≠ .ok then return (headerRes, headers)
    requestParseLoop buf fin fuel (headerRes.next.getD 0) headerRes headers

def requestParse (buf : Bytes) (req : HttpRequest) : Parse (ParseResult × HttpRequest) := do
  let fin ← owsTrimTrailing buf 0 buf.length
  let (reqLineRes, line) ← requestLineParse buf 0 (← crlfFind buf 0 fin) req.requestLine
  let req := { req with requestLine := line }
  if reqLineRes.status ≠ .ok then return (reqLineRes, req)
  let reqLineRes ← crlfParse buf (reqLineRes.next.getD 0) fin
  if reqLineRes.status ≠ .ok then return (reqLineRes, req)
  let (headerRes, headers) ←
    requestParseLoop buf fin (buf.length + 1) (reqLineRes.next.getD 0) {} req.headers
  return (headerRes, { req with headers := headers })

end HttpServer.Checked
