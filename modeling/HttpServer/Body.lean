import HttpServer.Parser

/-!
# Body decoding

The parts of `HttpBody.c` that do not touch the socket: Content-Length and
Transfer-Encoding values and the chunk decoder.
-/

namespace HttpServer

/-- One call of the decoder on the bytes `input` with room for `outAvail` bytes. The last
component is what it stores at `out`; `next` is an offset into `input`. -/
def chunkAdvance (dec : ChunkDecoder) (input : Bytes) (outAvail : ℕ) :
    ChunkResult × ChunkDecoder × Bytes :=
  match dec.phase with
  | .size =>
    let crlf := crlfFind input 0 input.length
    if input.length - crlf < 2 then
      ({ parseResult := parseErrorSet {} .incomplete 0 }, dec, [])
    else
      let sizeEnd := (memchr input 0 crlf 59).getD crlf
      if sizeEnd = 0 then ({ parseResult := parseErrorSet {} .badRequest 0 }, dec, [])
      else match uintParse (range input 0 sizeEnd) 16 HTTP_MAX_BODY_LEN with
        | (.ok, some len) =>
          let res : ChunkResult := { parseResult := { status := .ok, next := some (crlf + 2) } }
          if len = 0 then (res, { dec with phase := .trailer }, [])
          else (res, { phase := .data, remaining := len }, [])
        | (status, _) => ({ parseResult := { status := status } }, dec, [])
  | .data =>
    let take := if dec.remaining < input.length then dec.remaining else input.length
    if take > outAvail then
      ({ parseResult := parseErrorSet {} .payloadTooLarge 0 }, dec, [])
    else
      let remaining := dec.remaining - take
      let status := if remaining = 0 then .ok else .incomplete
      let phase := if remaining = 0 then .trailCr else .data
      ({ parseResult := { status := status, next := some take }, bytesWritten := take },
        { phase := phase, remaining := remaining }, input.take take)
  | .trailCr =>
    if input.length = 0 then ({ parseResult := parseErrorSet {} .incomplete 0 }, dec, [])
    else if byteAt input 0 != CR then ({ parseResult := parseErrorSet {} .badRequest 0 }, dec, [])
    else ({ parseResult := { status := .ok, next := some 1 } }, { dec with phase := .trailLf }, [])
  | .trailLf =>
    if input.length = 0 then ({ parseResult := parseErrorSet {} .incomplete 0 }, dec, [])
    else if byteAt input 0 != LF then ({ parseResult := parseErrorSet {} .badRequest 0 }, dec, [])
    else ({ parseResult := { status := .ok, next := some 1 } }, { dec with phase := .size }, [])
  | .trailer =>
    if input.length < 2 then ({ parseResult := parseErrorSet {} .incomplete 0 }, dec, [])
    else if byteAt input 0 != CR || byteAt input 1 != LF then
      ({ parseResult := parseErrorSet {} .badRequest 0 }, dec, [])
    else ({ parseResult := { status := .ok, next := some 2 } }, { dec with phase := .done }, [])
  | .done => ({ parseResult := { status := .ok, next := some 0 } }, dec, [])

/-- `assert(dec->remaining > 0)`, the one assertion of `chunk_advance` on its state. -/
def chunkAdvanceAsserts (dec : ChunkDecoder) : Bool := dec.phase != .data || 0 < dec.remaining

/-- State of a caller that drives the decoder over a fixed input. -/
structure ChunkDrive where
  dec : ChunkDecoder := {}
  consumed : ℕ := 0
  out : Bytes := []
  status : ParseStatus := .ok
  deriving DecidableEq, Repr

/-- Drive the decoder over `input` with room for `cap` bytes until it is done or stops with a
status other than `ok`. The result is `none` when `fuel` calls are not enough. -/
def dechunkDrive (input : Bytes) (cap : ℕ) : ℕ → ChunkDrive → Option ChunkDrive
  | 0, _ => none
  | fuel + 1, s =>
    let (cr, dec, written) := chunkAdvance s.dec (input.drop s.consumed) (cap - s.out.length)
    let s : ChunkDrive :=
      { dec := dec
        consumed := s.consumed + cr.parseResult.next.getD 0
        out := s.out ++ written
        status := cr.parseResult.status }
    if dec.phase = .done then some s
    else if s.status ≠ .ok then some s
    else dechunkDrive input cap fuel s

/-! ## Transfer-Encoding -/

def eqChunked (start : Bytes) : Bool :=
  start.length == 7 && start.map toLower == ascii "chunked"

/-- The local variables of `transfer_encoding_parse`. -/
structure TransferCodingScan where
  chunkedFound : Bool := false
  totalNonEmpty : ℕ := 0
  chunkedPosition : Option ℕ := none
  hasUnsupported : Bool := false
  deriving DecidableEq, Repr

/-- The body of the loop on a trimmed list element; `none` is the early
`return PARSE_BAD_REQUEST`. -/
def transferCodingElement (tok : Bytes) (s : TransferCodingScan) : Option TransferCodingScan :=
  if tok.length = 0 then some s
  else
    let name := match memchr tok 0 tok.length 59 with
      | some semi => range tok 0 (owsTrimTrailing tok 0 semi)
      | none => tok
    if name.length = 0 then none
    else if !isToken name then none
    else if eqChunked name then
      if s.chunkedFound then none
      else some { s with
        chunkedFound := true
        chunkedPosition := some s.totalNonEmpty
        totalNonEmpty := s.totalNonEmpty + 1 }
    else some { s with hasUnsupported := true, totalNonEmpty := s.totalNonEmpty + 1 }

/-- The loop from offset `cur`. Each turn moves past a comma or reaches the end, so `fuel` of
the value's length is enough. -/
def transferCodingLoop (val : Bytes) : ℕ → ℕ → TransferCodingScan → Option TransferCodingScan
  | 0, _, s => some s
  | fuel + 1, cur, s =>
    if cur ≥ val.length then some s
    else
      let tokStart := owsSkip val cur val.length
      let comma := (memchr val cur val.length 44).getD val.length
      let tokEnd := owsTrimTrailing val tokStart comma
      match transferCodingElement (range val tokStart tokEnd) s with
      | none => none
      | some s => transferCodingLoop val fuel (if comma < val.length then comma + 1 else comma) s

def transferEncodingParse (val : Bytes) : ParseStatus × TransferCoding :=
  match transferCodingLoop val val.length 0 {} with
  | none => (.badRequest, .none)
  | some s =>
    if s.totalNonEmpty = 0 then (.badRequest, .none)
    else if s.chunkedFound && s.hasUnsupported && s.chunkedPosition != some (s.totalNonEmpty - 1)
    then (.badRequest, .none)
    else if s.hasUnsupported then (.notImplemented, .unsupported)
    else (.ok, .chunked)

end HttpServer
