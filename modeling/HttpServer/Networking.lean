import HttpServer.Connection

/-!
# Client slots and poll events

The parts of `Networking.c` and `HttpServer.c` that manage the connection slots. A
slot is reused by the next client with whatever `connection_init` does not set.
-/

namespace HttpServer

/-! ## `connection_init` -/

/-- Allocate the memory of a buffer; what an earlier client left there stays. -/
def bufferInit (buffer : HttpBuffer) (arena : Arena) (len : ℕ) : HttpBuffer × Arena :=
  let (address, arena) := arenaAlloc arena len 1
  ({ buffer with address := address, cap := len, size := 0 }, arena)

def connectionInit (conn : Connection) (backing backingCap : ℕ) (newFd : ℤ) : Connection :=
  let arena := arenaInit backing backingCap
  let (reqBuf, arena) := bufferInit conn.mem.reqBuf arena HTTP_MAX_REQUEST_LEN
  let (respBuf, arena) := bufferInit conn.mem.respBuf arena HTTP_RESPONSE_BUFFER_SIZE
  let (bodyDechunked, arena) := bufferInit conn.mem.bodyDechunked arena HTTP_MAX_DECHUNK_SIZE
  { conn with
    reqParsed := {}
    st := .cl {}
    fd := newFd
    requests := 0
    phase := .readingRequest
    mem :=
      { arena := arena
        reqMark := arenaMark arena
        reqBuf := reqBuf
        respBuf := respBuf
        bodyDechunked := bodyDechunked } }

/-! ## The client set -/

def POLLIN : ℕ := 1
def POLLOUT : ℕ := 4

structure PollFd where
  fd : ℤ := -1
  events : ℕ := 0
  deriving DecidableEq, Repr

/-- Slot `i` with `1 ≤ i ≤ HTTP_MAX_CONNECTIONS` belongs to a client. `closed` collects the
descriptors given to `close`. -/
structure ClientSet where
  pollFdSet : ℕ → PollFd := fun _ => {}
  conns : ℕ → Connection := fun _ => {}
  backing : ℕ := 0
  closed : List ℤ := []

/-- The address of `arena_backing[i - 1]`. -/
def ClientSet.arenaBacking (set : ClientSet) (i : ℕ) : ℕ :=
  set.backing + (i - 1) * HTTP_CONN_ARENA_SIZE

def clientSetDelete (set : ClientSet) (i : ℕ) : ClientSet :=
  { set with
    pollFdSet := fun j => if j = i then { set.pollFdSet j with fd := -1 } else set.pollFdSet j }

def connectionClose (set : ClientSet) (i : ℕ) : ClientSet :=
  clientSetDelete { set with closed := set.closed ++ [(set.pollFdSet i).fd] } i

def freeSlot (set : ClientSet) : Option ℕ :=
  ((List.range HTTP_MAX_CONNECTIONS).map (· + 1)).find? fun i => (set.pollFdSet i).fd == -1

def addToClientSet (set : ClientSet) (newFd : ℤ) : ClientSet :=
  match freeSlot set with
  | none => { set with closed := set.closed ++ [newFd] }
  | some i =>
    { set with
      pollFdSet := fun j => if j = i then { fd := newFd, events := POLLIN } else set.pollFdSet j
      conns := fun j => if j = i then
        connectionInit (set.conns j) (set.arenaBacking i) HTTP_CONN_ARENA_SIZE newFd
        else set.conns j }

/-! ## `conn_phase_event` -/

/-- `none` is a failing assertion. -/
def connPhaseEvent : ConnPhase → Option ℕ
  | .readingRequest | .readingBodyCl | .readingBodyChunked => some POLLIN
  | .sendingResponse | .sendingResponseStream => some POLLOUT
  | .closed => some 0
  | .building | .sending100 => none

end HttpServer
